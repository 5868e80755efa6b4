-- SUMMARY: Suspended builds: computations that hand work to a worker and wait for its result.
import PageSplice.Session

/-!
# Suspended builds

A suspended build does not run its delegates itself. It stops with the work it
needs done and goes on once it is given the result, so whoever drives it may do
other things in the meantime. Driving it to the end without a pause gives the
build back that does everything in place.
-/

namespace PageSplice

inductive Performer
  /-- The driver, in passing. -/
  | driver
  /-- A worker, while the build waits. -/
  | worker
  deriving DecidableEq, Repr

/-- A build that stops at every piece of work. -/
inductive Suspension (σ : Type) (α : Type) : Type 1
  | done (result : Except Failure α)
  | perform (performer : Performer) {β : Type} (work : Build σ β)
      (resume : Except Failure β → Suspension σ α)

namespace Suspension

variable {σ α β : Type}

def bind (s : Suspension σ α) (f : α → Suspension σ β) : Suspension σ β :=
  match s with
  | done (.ok a) => f a
  | done (.error e) => done (.error e)
  | perform performer work resume => perform performer work fun result => (resume result).bind f

instance : Monad (Suspension σ) where
  pure a := done (.ok a)
  bind := bind

def fail (e : Failure) : Suspension σ α := done (.error e)

/-- Work that the driver does in passing. -/
def inPassing (work : Build σ α) : Suspension σ α := perform .driver work done

/-- Work that a worker does. -/
def await (work : Build σ α) : Suspension σ α := perform .worker work done

def mapFailure (f : Failure → Failure) : Suspension σ α → Suspension σ α
  | done result => done (result.mapError f)
  | perform performer work resume =>
    perform performer work fun result => (resume result).mapFailure f

/-- Drives a build to its end, doing each piece of work at once. -/
def run : Suspension σ α → Build σ α
  | done result => ExceptT.mk (pure result)
  | perform _ work resume => ExceptT.mk (do (resume (← work.run)).run.run)

end Suspension

end PageSplice

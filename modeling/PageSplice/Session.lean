-- SUMMARY: Builds: computations with a caching context and a log that may fail.
import PageSplice.Failure

/-!
# Builds

A build works in a session. The session holds the caching context, which
belongs to the caller and which delegates may read and write, and the log. Both
outlive a failure: what was written before it stays.
-/

namespace PageSplice

inductive Level
  | debug
  | info
  | warning
  | error
  deriving DecidableEq, Repr

/-- The part of the library that a log record comes from. -/
inductive Origin
  | page
  | minifier
  | server
  | batch
  deriving DecidableEq, Repr

/-- A line of the log, with the failure it reports. -/
structure Record where
  level : Level
  origin : Origin
  message : Text
  failure : Option Failure := none

/-- The state of a build, over the caller's context. -/
structure Session (σ : Type) where
  context : σ
  /-- The log, the oldest record first. -/
  log : List Record

abbrev Build (σ : Type) := ExceptT Failure (StateM (Session σ))

namespace Build

variable {σ α : Type}

def log (level : Level) (origin : Origin) (message : Text) : Build σ Unit :=
  modify fun s => { s with log := s.log ++ [⟨level, origin, message, none⟩] }

def context : Build σ σ := return (← get).context

def setContext (context : σ) : Build σ Unit := modify fun s => { s with context }

def mapFailure (f : Failure → Failure) (build : Build σ α) : Build σ α :=
  ExceptT.mk (Except.mapError f <$> build.run)

/-- Lifts a result that needs no session, with its failure. -/
def ofExcept {ε : Type} (f : ε → Failure) (result : Except ε α) : Build σ α :=
  match result with
  | .ok a => pure a
  | .error e => throw (f e)

end Build

end PageSplice

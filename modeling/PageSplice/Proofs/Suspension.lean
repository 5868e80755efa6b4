-- SUMMARY: Driving suspended builds: what each operation of theirs is once it is driven to its end.
import PageSplice.Proofs.Build
import PageSplice.Suspension

/-!
# Driving suspended builds

To drive a suspended build to its end is to do in place what it stops for. So
driving goes through every operation of builds: sequences, failures that are
changed, and folds over lists.
-/

namespace PageSplice.Suspension

variable {σ α β : Type}

theorem run_pure (a : α) : (pure a : Suspension σ α).run = pure a := rfl

theorem run_inPassing (work : Build σ α) : (inPassing work).run = work := rfl

theorem run_await (work : Build σ α) : (await work).run = work := rfl

theorem run_bind (s : Suspension σ α) (f : α → Suspension σ β) :
    (s >>= f).run = s.run >>= fun a => (f a).run := by
  induction s with
  | done result => cases result <;> rfl
  | perform performer work resume ih =>
    refine funext fun session => ?_
    refine (congrFun (ih (work.run.run session).1) (work.run.run session).2).trans ?_
    exact (Build.run_bind _ _ _).trans
      (Build.run_bind (perform performer work resume).run (fun a => (f a).run) session).symm

theorem run_map (s : Suspension σ α) (f : α → β) : (f <$> s).run = f <$> s.run := by
  refine (run_bind s fun a => pure (f a)).trans ?_
  exact bind_pure_comp f s.run

theorem run_mapFailure (f : Failure → Failure) (s : Suspension σ α) :
    (s.mapFailure f).run = Build.mapFailure f s.run := by
  induction s with
  | done result => rfl
  | perform performer work resume ih =>
    refine funext fun session => ?_
    exact congrFun (ih (work.run.run session).1) (work.run.run session).2

/-- Driving a fold drives each of its steps. -/
theorem run_foldlM (f : β → α → Suspension σ β) (l : List α) (b : β) :
    (l.foldlM f b).run = l.foldlM (fun b a => (f b a).run) b := by
  induction l generalizing b with
  | nil => rfl
  | cons a rest ih =>
    rw [List.foldlM_cons, List.foldlM_cons, run_bind]
    exact congrArg _ (funext fun b => ih b)

end PageSplice.Suspension

-- SUMMARY: What a build yields and what it fails with, operation by operation.
import PageSplice.Session

/-!
# Builds that succeed, and builds that fail

A build that yields a value from a session leaves a session behind. Each
operation of builds is taken apart here once: what it yields says which parts
have been run, from which session to which. What the failures of a build can be
follows from what those of its parts can be.
-/

namespace PageSplice.Build

variable {σ α β : Type}

/-- The build succeeds from the session `s` with the value `a`, and leaves the session `s'`. -/
def Yields (build : Build σ α) (s : Session σ) (a : α) (s' : Session σ) : Prop :=
  build.run.run s = (.ok a, s')

theorem yields_pure {a b : α} {s s' : Session σ} :
    (pure a : Build σ α).Yields s b s' ↔ b = a ∧ s' = s := by
  constructor
  · intro h
    cases h
    exact ⟨rfl, rfl⟩
  · rintro ⟨rfl, rfl⟩
    rfl

theorem not_yields_throw {failure : Failure} {s s' : Session σ} {a : α} :
    ¬ (throw failure : Build σ α).Yields s a s' := by
  intro h
  cases h

/-- The runs of a build in a session and of the builds after it. -/
theorem run_bind (build : Build σ α) (f : α → Build σ β) (s : Session σ) :
    (build >>= f).run.run s =
      match build.run.run s with
      | (.ok a, s₁) => (f a).run.run s₁
      | (.error e, s₁) => (.error e, s₁) := by
  simp only [ExceptT.run_bind, StateT.run_bind]
  rcases build.run.run s with ⟨_ | _, s₁⟩ <;> rfl

theorem run_pure (a : α) (s : Session σ) : (pure a : Build σ α).run.run s = (.ok a, s) := rfl

theorem run_map (build : Build σ α) (f : α → β) (s : Session σ) :
    (f <$> build).run.run s =
      ((build.run.run s).1.map f, (build.run.run s).2) := by
  rw [← bind_pure_comp, run_bind]
  rcases build.run.run s with ⟨_ | _, s₁⟩ <;> rfl

theorem run_ofExcept {ε : Type} (f : ε → Failure) (result : Except ε α) (s : Session σ) :
    (ofExcept f result : Build σ α).run.run s = (result.mapError f, s) := by
  cases result <;> rfl

theorem ofExcept_ok_bind {ε : Type} (f : ε → Failure) (a : α) (next : α → Build σ β) :
    ofExcept f (.ok a) >>= next = next a := pure_bind a next

theorem ofExcept_error_bind {ε : Type} (f : ε → Failure) (e : ε) (next : α → Build σ β) :
    ofExcept f (.error e) >>= next = throw (f e) := rfl

theorem mapError_ok {ε ε' : Type} (f : ε → ε') (a : α) :
    (Except.ok a : Except ε α).mapError f = .ok a := rfl

theorem run_mapFailure (f : Failure → Failure) (build : Build σ α) (s : Session σ) :
    (mapFailure f build).run.run s = ((build.run.run s).1.mapError f, (build.run.run s).2) := rfl

theorem yields_bind {build : Build σ α} {f : α → Build σ β} {s s' : Session σ} {b : β} :
    (build >>= f).Yields s b s' ↔ ∃ a s₁, build.Yields s a s₁ ∧ (f a).Yields s₁ b s' := by
  unfold Yields
  rw [run_bind]
  constructor
  · intro h
    split at h
    · rename_i a s₁ hbuild
      exact ⟨a, s₁, hbuild, h⟩
    · cases h
  · rintro ⟨a, s₁, hbuild, hf⟩
    rw [hbuild]
    exact hf

theorem yields_map {build : Build σ α} {f : α → β} {s s' : Session σ} {b : β} :
    (f <$> build).Yields s b s' ↔ ∃ a, build.Yields s a s' ∧ b = f a := by
  rw [← bind_pure_comp, yields_bind]
  constructor
  · rintro ⟨a, s₁, hbuild, hpure⟩
    obtain ⟨rfl, rfl⟩ := yields_pure.1 hpure
    exact ⟨a, hbuild, rfl⟩
  · rintro ⟨a, hbuild, rfl⟩
    exact ⟨a, s', hbuild, yields_pure.2 ⟨rfl, rfl⟩⟩

def noted (level : Level) (origin : Origin) (message : Text) (s : Session σ) : Session σ :=
  { s with log := s.log ++ [⟨level, origin, message, none⟩] }

theorem run_log (level : Level) (origin : Origin) (message : Text) (s : Session σ) :
    (log level origin message : Build σ Unit).run.run s = (.ok (), noted level origin message s) :=
  rfl

theorem yields_log {level : Level} {origin : Origin} {message : Text} {s s' : Session σ}
    {u : Unit} : (log level origin message : Build σ Unit).Yields s u s' ↔
      s' = noted level origin message s := by
  constructor
  · intro h
    cases h
    rfl
  · intro h
    cases h
    rfl

theorem yields_ofExcept {ε : Type} {f : ε → Failure} {result : Except ε α} {s s' : Session σ}
    {a : α} : (ofExcept f result : Build σ α).Yields s a s' ↔ result = .ok a ∧ s' = s := by
  cases result with
  | error e => exact ⟨fun h => absurd h not_yields_throw, fun h => nomatch h.1⟩
  | ok b =>
    refine yields_pure.trans (and_congr_left fun _ => ?_)
    exact ⟨fun h => h ▸ rfl, fun h => (Except.ok.inj h).symm⟩

/-- Changing the failure of a build does not change what it yields. -/
theorem yields_mapFailure {f : Failure → Failure} {build : Build σ α} {s s' : Session σ} {a : α} :
    (mapFailure f build).Yields s a s' ↔ build.Yields s a s' := by
  unfold Yields
  rw [run_mapFailure]
  rcases build.run.run s with ⟨_ | _, s₁⟩
  · exact ⟨fun h => (nomatch h), fun h => (nomatch h)⟩
  · exact Iff.rfl

/-- Of what comes after a build, only what comes after its results counts. -/
theorem bind_congr_of_yields {build : Build σ α} {f g : α → Build σ β}
    (h : ∀ s a s', build.Yields s a s' → f a = g a) : build >>= f = build >>= g := by
  refine funext fun s => ?_
  refine (run_bind build f s).trans (Eq.trans ?_ (run_bind build g s).symm)
  rcases hbuild : build.run.run s with ⟨failure | a, s₁⟩
  · rfl
  · exact congrArg (fun next : Build σ β => next.run.run s₁) (h s a s₁ hbuild)

theorem exists_yields {build : Build σ α} {f : α → β} {s : Session σ} {b : β}
    (h : ((build.run.run s).1.toOption.map f) = some b) : ∃ a s', build.Yields s a s' ∧ f a = b := by
  obtain ⟨a, ha, hb⟩ := Option.map_eq_some_iff.1 h
  refine ⟨a, (build.run.run s).2, ?_, hb⟩
  unfold Yields
  rcases hrun : build.run.run s with ⟨_ | a', s'⟩
  · rw [hrun] at ha
    cases ha
  · rw [hrun] at ha
    cases ha
    rfl

-- ---------------------------------------------------------------------------
-- Builds that fail
-- ---------------------------------------------------------------------------

/-- Every failure of the build satisfies `P`, from whatever session. -/
def FailsOnly (P : Failure → Prop) (build : Build σ α) : Prop :=
  ∀ s failure s', build.run.run s = (.error failure, s') → P failure

section FailsOnly

variable {P : Failure → Prop}

theorem failsOnly_pure (a : α) : FailsOnly P (pure a : Build σ α) := nofun

theorem failsOnly_throw {failure : Failure} (h : P failure) :
    FailsOnly P (throw failure : Build σ α) := by
  rintro s failure s' ⟨⟩
  exact h

theorem failsOnly_log (level : Level) (origin : Origin) (message : Text) :
    FailsOnly P (log level origin message : Build σ Unit) := nofun

theorem failsOnly_ofExcept {ε : Type} {f : ε → Failure} {result : Except ε α}
    (h : ∀ e, result = .error e → P (f e)) : FailsOnly P (ofExcept f result : Build σ α) := by
  cases result with
  | ok a => exact failsOnly_pure a
  | error e => exact failsOnly_throw (h e rfl)

theorem FailsOnly.mono {Q : Failure → Prop} {build : Build σ α} (h : FailsOnly P build)
    (hPQ : ∀ failure, P failure → Q failure) : FailsOnly Q build :=
  fun s failure s' hrun => hPQ failure (h s failure s' hrun)

theorem FailsOnly.bind {build : Build σ α} {f : α → Build σ β} (hbuild : FailsOnly P build)
    (hf : ∀ s a s', build.Yields s a s' → FailsOnly P (f a)) : FailsOnly P (build >>= f) := by
  intro s failure s' hrun
  rw [run_bind] at hrun
  split at hrun
  · rename_i a s₁ hyields
    exact hf s a s₁ hyields _ _ _ hrun
  · rename_i hfails
    cases hrun
    exact hbuild _ _ _ hfails

theorem FailsOnly.map {build : Build σ α} (h : FailsOnly P build) (f : α → β) :
    FailsOnly P (f <$> build) := by
  rw [← bind_pure_comp]
  exact h.bind fun _ a _ _ => failsOnly_pure (f a)

theorem FailsOnly.mapFailure {build : Build σ α} {f : Failure → Failure}
    (h : FailsOnly (fun failure => P (f failure)) build) : FailsOnly P (mapFailure f build) := by
  intro s failure s' hrun
  rw [run_mapFailure] at hrun
  cases hbuild : (build.run.run s).1 with
  | ok a =>
    rw [hbuild] at hrun
    cases hrun
  | error cause =>
    rw [hbuild] at hrun
    cases hrun
    exact h s cause _ (Prod.ext hbuild rfl)

/-- A fold whose steps keep an invariant fails as its steps do where the invariant holds. -/
theorem failsOnly_foldlM_of_keeps {f : β → α → Build σ β} {l : List α} {I : β → Prop}
    (h : ∀ b, I b → ∀ a ∈ l, FailsOnly P (f b a))
    (hkeeps : ∀ b, I b → ∀ a ∈ l, ∀ s b' s', (f b a).Yields s b' s' → I b') {b : β} (hb : I b) :
    FailsOnly P (l.foldlM f b) := by
  induction l generalizing b with
  | nil => exact failsOnly_pure b
  | cons a rest ih =>
    rw [List.foldlM_cons]
    refine (h b hb a List.mem_cons_self).bind fun s b' s' hyields => ?_
    exact ih (fun b hb a ha => h b hb a (List.mem_cons_of_mem _ ha))
      (fun b hb a ha => hkeeps b hb a (List.mem_cons_of_mem _ ha))
      (hkeeps b hb a List.mem_cons_self s b' s' hyields)

theorem failsOnly_forM {f : α → Build σ Unit} (h : ∀ a, FailsOnly P (f a)) (l : List α) :
    FailsOnly P (l.forM f) := by
  induction l with
  | nil => exact failsOnly_pure ()
  | cons a rest ih => exact (h a).bind fun _ _ _ _ => ih

end FailsOnly

end PageSplice.Build

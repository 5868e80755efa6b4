-- SUMMARY: Delegates that write down how they are called, and builds that are the same with them.
import PageSplice.Proofs.Build
import PageSplice.Settings

/-!
# Recorded calls

What a build asks of its delegates cannot be seen in what it makes. It can be
seen once every delegate writes its calls down before it does what it did
before. The record stands beside the context, where no delegate looks, so that
a build does the same with recorded delegates as without.
-/

namespace PageSplice

variable {σ α β : Type}

inductive DelegateCall
  /-- Whether the delegate takes the region. -/
  | accepts (identity : Text)
  | compile (code identity : Text)
  deriving DecidableEq, Repr

/-- A context with the calls of delegates beside it, the oldest first. -/
abbrev Recorded (σ : Type) := σ × List DelegateCall

def Session.withCalls (s : Session σ) (calls : List DelegateCall) : Session (Recorded σ) :=
  ⟨(s.context, calls), s.log⟩

namespace Build

/-- The build in a session with a record, which it leaves alone. -/
def beside (build : Build σ α) : Build (Recorded σ) α :=
  ExceptT.mk fun s =>
    let (result, s') := build.run.run ⟨s.context.1, s.log⟩
    (result, s'.withCalls s.context.2)

def record (call : DelegateCall) : Build (Recorded σ) Unit :=
  modify fun s => { s with context := (s.context.1, s.context.2 ++ [call]) }

end Build

-- ---------------------------------------------------------------------------
-- Recorded delegates
-- ---------------------------------------------------------------------------

/-- The delegate that writes its calls down. -/
def Delegate.recorded (d : Delegate σ) : Delegate (Recorded σ) where
  name := d.name
  types := d.types
  outputType := d.outputType
  accepts identity := do
    Build.record (.accepts identity)
    Build.beside (d.accepts identity)
  dependencies code identity := Build.beside (d.dependencies code identity)
  compile code identity := do
    Build.record (.compile code identity)
    Build.beside (d.compile code identity)

def CompilerClass.recorded : CompilerClass σ → CompilerClass (Recorded σ)
  | .html name => .html name
  | .delegate d => .delegate d.recorded
  | .abstract name objection => .abstract name objection
  | .foreign name => .foreign name
  | .module name => .module name

def Entry.recorded : Entry σ → Entry (Recorded σ)
  | .vacant => .vacant
  | .path dotted => .path dotted
  | .compiler found => .compiler found.recorded

def EntryTable.recorded (table : EntryTable σ) : EntryTable (Recorded σ) :=
  table.map fun entry => (entry.1, entry.2.recorded)

def Importer.recorded (load : Importer σ) : Importer (Recorded σ) :=
  fun dotted => (load dotted).map CompilerClass.recorded

def Lookup.recorded : Lookup σ → Lookup (Recorded σ)
  | .registry load r => .registry load.recorded ⟨r.table.recorded⟩
  | .exact table => .exact table.recorded

def Setting.recorded : Setting σ → Setting (Recorded σ)
  | .value v => .value v
  | .compilers entries => .compilers (EntryTable.recorded entries)

def Settings.recorded (settings : Settings σ) : Settings (Recorded σ) :=
  settings.map fun setting => (setting.1, setting.2.recorded)

def Environment.recorded (env : Environment σ) : Environment (Recorded σ) :=
  ⟨env.workingDirectory, env.settings.recorded⟩

/-- A recorded delegate answers as before, and the question stands behind all other calls. -/
theorem Delegate.run_recorded_accepts (d : Delegate σ) (identity : Text) (s : Session σ)
    (calls : List DelegateCall) :
    (d.recorded.accepts identity).run.run (s.withCalls calls) =
      (((d.accepts identity).run.run s).1,
        ((d.accepts identity).run.run s).2.withCalls (calls ++ [.accepts identity])) := rfl

theorem Delegate.run_recorded_compile (d : Delegate σ) (code identity : Text) (s : Session σ)
    (calls : List DelegateCall) :
    (d.recorded.compile code identity).run.run (s.withCalls calls) =
      (((d.compile code identity).run.run s).1,
        ((d.compile code identity).run.run s).2.withCalls (calls ++ [.compile code identity])) :=
  rfl

-- ---------------------------------------------------------------------------
-- Classes are found as before
-- ---------------------------------------------------------------------------

theorem lookup_map {κ γ δ : Type} [BEq κ] (f : γ → δ) (table : List (κ × γ)) (key : κ) :
    (table.map fun entry => (entry.1, f entry.2)).lookup key = (table.lookup key).map f := by
  induction table with
  | nil => rfl
  | cons entry rest ih =>
    rw [List.map_cons, List.lookup_cons, List.lookup_cons]
    cases key == entry.1 with
    | true => rfl
    | false => exact ih

/-- A registry finds the class whose delegate is recorded where it found the class before. -/
theorem find?_table (load : Importer σ) (table : EntryTable σ) (type : Text) :
    Registry.find? load.recorded ⟨table.recorded⟩ type =
      (Registry.find? load ⟨table⟩ type).map (Option.map CompilerClass.recorded) := by
  unfold Registry.find?
  simp only [EntryTable.recorded, lookup_map Entry.recorded]
  cases table.lookup (Mime.normalize type) with
  | none => rfl
  | some entry =>
    cases entry with
    | vacant => rfl
    | compiler found => rfl
    | path dotted =>
      change some <$> load.recorded dotted = _
      rw [Importer.recorded]
      dsimp only
      cases load dotted <;> rfl

theorem find?_recorded (lookup : Lookup σ) (type : Text) :
    lookup.recorded.find? type = (lookup.find? type).map (Option.map CompilerClass.recorded) := by
  cases lookup with
  | registry load r =>
    rw [Lookup.recorded, Lookup.find?, Lookup.find?, find?_table]
    cases Registry.find? load r type <;> rfl
  | exact table =>
    simp only [Lookup.recorded, EntryTable.recorded, Lookup.find?, lookup_map Entry.recorded]
    cases table.lookup type with
    | none => rfl
    | some entry => cases entry <;> rfl

-- ---------------------------------------------------------------------------
-- Settings are read as before
-- ---------------------------------------------------------------------------

/-- What is read off a setting where a value is asked for. -/
def Setting.shown : Setting σ → Json.Value
  | .value v => v
  | .compilers _ => .obj [([], .null)]

theorem Settings.value_eq (settings : Settings σ) (key : Text) :
    settings.value key =
      ((settings.map fun setting => (setting.1, setting.2.shown)).lookup key).getD
        ((((defaults σ).map fun setting => (setting.1, setting.2.shown)).lookup key).getD
          .null) := by
  have hvalue : settings.value key = (settings.get key).shown := by
    rw [value]
    split <;> rename_i heq <;> rw [heq] <;> rfl
  rw [hvalue, get, getD, lookup_map, lookup_map]
  cases settings.lookup key with
  | some setting => rfl
  | none => cases (defaults σ).lookup key <;> rfl

/-- A value that is read off the settings does not depend on what delegates do. -/
theorem Settings.value_recorded (settings : Settings σ) (key : Text) :
    settings.recorded.value key = settings.value key := by
  have hshown (setting : Setting σ) : setting.recorded.shown = setting.shown := by
    cases setting <;> rfl
  simp only [value_eq, recorded, List.map_map, Function.comp_def, hshown]
  rfl

theorem Settings.rules_recorded (settings : Settings σ) :
    settings.recorded.rules = settings.rules := by
  simp only [rules, value_recorded]

-- ---------------------------------------------------------------------------
-- Builds with recorded calls
-- ---------------------------------------------------------------------------

def DelegateCall.asked? : DelegateCall → Option Text
  | .accepts identity => some identity
  | .compile _ _ => none

def DelegateCall.compiled? : DelegateCall → Option Text
  | .accepts _ => none
  | .compile _ identity => some identity

/-- Whether delegates are asked about regions with these identities, in this order and about each at
most once, and compile regions that they have been asked about. -/
structure Orderly (identities : List Text) (calls : List DelegateCall) : Prop where
  asked : (calls.filterMap DelegateCall.asked?).Sublist identities
  compiled : (calls.filterMap DelegateCall.compiled?).Sublist
    (calls.filterMap DelegateCall.asked?)

theorem orderly_nil (identities : List Text) : Orderly identities [] :=
  ⟨List.nil_sublist _, List.Sublist.slnil⟩

theorem orderly_accepts (identity : Text) : Orderly [identity] [.accepts identity] :=
  ⟨List.Sublist.refl _, List.nil_sublist _⟩

theorem orderly_compile (code identity : Text) :
    Orderly [identity] [.accepts identity, .compile code identity] :=
  ⟨List.Sublist.refl _, List.Sublist.refl _⟩

theorem Orderly.append {identities identities' : List Text} {calls calls' : List DelegateCall}
    (h : Orderly identities calls) (h' : Orderly identities' calls') :
    Orderly (identities ++ identities') (calls ++ calls') := by
  constructor
  · rw [List.filterMap_append]
    exact h.asked.append h'.asked
  · rw [List.filterMap_append, List.filterMap_append]
    exact h.compiled.append h'.compiled

theorem Orderly.mono {identities identities' : List Text} {calls : List DelegateCall}
    (h : Orderly identities calls) (hsub : identities.Sublist identities') :
    Orderly identities' calls :=
  ⟨h.asked.trans hsub, h.compiled⟩

namespace Build

/-- `Mirrors f identities build' build`: the build with recorded delegates does what the build
without does, up to `f`, and writes down calls for these identities. -/
def Mirrors (f : α → β) (identities : List Text) (build' : Build (Recorded σ) β)
    (build : Build σ α) : Prop :=
  ∀ (s : Session σ) (calls : List DelegateCall), ∃ more, Orderly identities more ∧
    build'.run.run (s.withCalls calls) =
      ((build.run.run s).1.map f, (build.run.run s).2.withCalls (calls ++ more))

section Mirrors

variable {γ δ : Type} {f : α → β} {g : γ → δ} {identities identities' : List Text}
  {build' : Build (Recorded σ) β} {build : Build σ α}

theorem mirrors_of_run
    (h : ∀ (s : Session σ) (calls : List DelegateCall), build'.run.run (s.withCalls calls) =
      ((build.run.run s).1.map f, (build.run.run s).2.withCalls calls)) :
    Mirrors f identities build' build :=
  fun s calls => ⟨[], orderly_nil _, by rw [List.append_nil, h]⟩

theorem mirrors_pure (a : α) : Mirrors f identities (pure (f a)) (pure a : Build σ α) :=
  mirrors_of_run fun _ _ => rfl

theorem mirrors_throw (failure : Failure) :
    Mirrors f identities (throw failure) (throw failure : Build σ α) :=
  mirrors_of_run fun _ _ => rfl

theorem mirrors_log (level : Level) (origin : Origin) (message : Text) :
    Mirrors id identities (log level origin message) (log level origin message : Build σ Unit) :=
  mirrors_of_run fun _ _ => rfl

theorem mirrors_ofExcept {ε : Type} (failing : ε → Failure) {result : Except ε α}
    {result' : Except ε β} (h : result' = result.map f) :
    Mirrors f identities (ofExcept failing result') (ofExcept failing result : Build σ α) :=
  mirrors_of_run fun _ _ => by cases result <;> subst h <;> rfl

theorem mirrors_ofExcept_id {ε : Type} (failing : ε → Failure) (result : Except ε α) :
    Mirrors id identities (ofExcept failing result) (ofExcept failing result : Build σ α) :=
  mirrors_ofExcept failing (congrFun Except.map_id result).symm

theorem Mirrors.mono (h : Mirrors f identities build' build)
    (hsub : identities.Sublist identities') : Mirrors f identities' build' build := by
  intro s calls
  obtain ⟨more, horderly, hrun⟩ := h s calls
  exact ⟨more, horderly.mono hsub, hrun⟩

theorem Mirrors.bind {next' : β → Build (Recorded σ) δ} {next : α → Build σ γ}
    (h : Mirrors f identities build' build)
    (hnext : ∀ s a s', build.Yields s a s' → Mirrors g identities' (next' (f a)) (next a)) :
    Mirrors g (identities ++ identities') (build' >>= next') (build >>= next) := by
  intro s calls
  obtain ⟨more, horderly, hrun⟩ := h s calls
  rw [run_bind, run_bind, hrun]
  rcases hbuild : build.run.run s with ⟨failure | a, s₁⟩
  · exact ⟨more, horderly.mono (List.sublist_append_left _ _), rfl⟩
  · obtain ⟨further, horderly', hrun'⟩ := hnext s a s₁ hbuild s₁ (calls ++ more)
    refine ⟨more ++ further, horderly.append horderly', ?_⟩
    rw [← List.append_assoc]
    exact hrun'

/-- What comes after a build that calls no delegate. -/
theorem Mirrors.quiet_bind {next' : β → Build (Recorded σ) δ} {next : α → Build σ γ}
    (h : Mirrors f [] build' build)
    (hnext : ∀ s a s', build.Yields s a s' → Mirrors g identities (next' (f a)) (next a)) :
    Mirrors g identities (build' >>= next') (build >>= next) :=
  h.bind hnext

/-- A build behind which no delegate is called. -/
theorem Mirrors.bind_quiet {next' : β → Build (Recorded σ) δ} {next : α → Build σ γ}
    (h : Mirrors f identities build' build)
    (hnext : ∀ s a s', build.Yields s a s' → Mirrors g [] (next' (f a)) (next a)) :
    Mirrors g identities (build' >>= next') (build >>= next) := by
  rw [← List.append_nil identities]
  exact h.bind hnext

theorem Mirrors.map {k' : β → δ} {k : α → γ} (h : Mirrors f identities build' build)
    (hk : ∀ a, k' (f a) = g (k a)) : Mirrors g identities (k' <$> build') (k <$> build) := by
  intro s calls
  obtain ⟨more, horderly, hrun⟩ := h s calls
  refine ⟨more, horderly, ?_⟩
  rw [run_map, run_map, hrun]
  rcases build.run.run s with ⟨failure | a, s₁⟩
  · rfl
  · exact congrArg (fun b => (Except.ok b, _)) (hk a)

theorem Mirrors.mapFailure (h : Mirrors f identities build' build) (k : Failure → Failure) :
    Mirrors f identities (mapFailure k build') (mapFailure k build) := by
  intro s calls
  obtain ⟨more, horderly, hrun⟩ := h s calls
  refine ⟨more, horderly, ?_⟩
  rw [run_mapFailure, run_mapFailure, hrun]
  rcases build.run.run s with ⟨failure | a, s₁⟩ <;> rfl

theorem mirrors_foldlM {ι : Type} {next' : β → ι → Build (Recorded σ) β}
    {next : α → ι → Build σ α} {identitiesOf : ι → List Text} {l : List ι}
    (h : ∀ a, ∀ i ∈ l, Mirrors f (identitiesOf i) (next' (f a) i) (next a i)) (a : α) :
    Mirrors f (l.flatMap identitiesOf) (l.foldlM next' (f a)) (l.foldlM next a) := by
  induction l generalizing a with
  | nil => exact mirrors_pure a
  | cons i rest ih =>
    rw [List.foldlM_cons, List.foldlM_cons, List.flatMap_cons]
    exact (h a i List.mem_cons_self).bind fun _ a _ _ =>
      ih (fun a i hi => h a i (List.mem_cons_of_mem _ hi)) a

theorem mirrors_forM {ι : Type} {next' : ι → Build (Recorded σ) Unit} {next : ι → Build σ Unit}
    (h : ∀ i, Mirrors id [] (next' i) (next i)) (l : List ι) :
    Mirrors id [] (l.forM next') (l.forM next) := by
  induction l with
  | nil => exact mirrors_pure ()
  | cons i rest ih => exact (h i).quiet_bind fun _ _ _ _ => ih

end Mirrors

end Build

end PageSplice

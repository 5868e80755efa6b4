-- SUMMARY: Look-ups in a registry: whatever has been looked up before, every answer is that of a new registry.
import PageSplice.Registry

/-!
# Look-ups that leave no trace

A look-up may put a class in the place of the path that leads to it. What is put
there is what every later look-up would find, and no type comes or goes, so a
registry that has been used answers like one that has not. This holds along
look-ups of all kinds, those that fail in between included.
-/

namespace PageSplice

variable {σ : Type}

-- ---------------------------------------------------------------------------
-- Tables
-- ---------------------------------------------------------------------------

namespace EntryTable

theorem lookup_cons_eq (t t' : Text) (e : Entry σ) (rest : EntryTable σ) :
    List.lookup t ((t', e) :: rest) = if t = t' then some e else rest.lookup t := by
  rw [List.lookup_cons]
  by_cases ht : t = t'
  · rw [if_pos ht, beq_iff_eq.2 ht]
  · rw [if_neg ht, beq_false_of_ne ht]

theorem lookup_insert (type : Text) (entry : Entry σ) (table : EntryTable σ) (t : Text) :
    (table.insert type entry).lookup t = if t = type then some entry else table.lookup t := by
  induction table with
  | nil => exact lookup_cons_eq t type entry []
  | cons first rest ih =>
    obtain ⟨t', e⟩ := first
    by_cases hfirst : t' = type
    · subst hfirst
      rw [insert, if_pos rfl, lookup_cons_eq, lookup_cons_eq]
      by_cases ht : t = t'
      · rw [if_pos ht, if_pos ht]
      · rw [if_neg ht, if_neg ht, if_neg ht]
    · rw [insert, if_neg hfirst, lookup_cons_eq, lookup_cons_eq, ih]
      by_cases ht : t = t'
      · rw [if_pos ht, if_pos ht, if_neg (ht ▸ hfirst)]
      · rw [if_neg ht, if_neg ht]

/-- An entry that takes the place of another one leaves the types as they are. -/
theorem map_fst_insert {type : Text} {table : EntryTable σ} (h : (table.lookup type).isSome = true)
    (entry : Entry σ) : (table.insert type entry).map (·.1) = table.map (·.1) := by
  induction table with
  | nil => cases h
  | cons first rest ih =>
    obtain ⟨t, e⟩ := first
    by_cases hfirst : t = type
    · rw [insert, if_pos hfirst]
      rfl
    · rw [lookup_cons_eq, if_neg (Ne.symm hfirst)] at h
      rw [insert, if_neg hfirst, List.map_cons, List.map_cons, ih h]

end EntryTable

namespace Registry

variable (load : Importer σ)

-- ---------------------------------------------------------------------------
-- Registries that answer alike
-- ---------------------------------------------------------------------------

inductive Query
  | get (type : Text)
  | resolve (type : Text)
  | contains (type : Text)
  | types
  deriving DecidableEq, Repr

inductive Answer (σ : Type)
  | found (result : Except LookupError (Option (CompilerClass σ)))
  | resolved (result : Except Failure (CompilerClass σ))
  | isListed (listed : Bool)
  | types (types : List Text)

def ask (r : Registry σ) : Query → Answer σ × Registry σ
  | .get type => (.found (r.get load type).1, (r.get load type).2)
  | .resolve type => (.resolved (r.resolve load type).1, (r.resolve load type).2)
  | .contains type => (.isListed (r.contains type), r)
  | .types => (.types r.types, r)

/-- The answers to look-ups that are made one after the other, and the registry after them. -/
def askAll (r : Registry σ) : List Query → List (Answer σ) × Registry σ
  | [] => ([], r)
  | query :: rest =>
    let (answer, r) := r.ask load query
    let (answers, r) := r.askAll rest
    (answer :: answers, r)

/-- Whether two registries list the same types in the same order, and find the same for each. -/
structure Alike (r r' : Registry σ) : Prop where
  listed : r.table.map (·.1) = r'.table.map (·.1)
  found : ∀ type, r.find? load type = r'.find? load type

theorem Alike.refl (r : Registry σ) : r.Alike load r := ⟨rfl, fun _ => rfl⟩

theorem Alike.trans {r₁ r₂ r₃ : Registry σ} (h : r₁.Alike load r₂) (h' : r₂.Alike load r₃) :
    r₁.Alike load r₃ :=
  ⟨h.listed.trans h'.listed, fun type => (h.found type).trans (h'.found type)⟩

/-- The registry after a look-up is the one before it, or has the class that was found in the place of
the entry that it was found by. -/
theorem get_cases (r : Registry σ) (type : Text) :
    (r.get load type).2 = r ∨ ∃ compiler, r.find? load type = .ok (some compiler) ∧
      (r.get load type).2 = ⟨r.table.insert (Mime.normalize type) (.compiler compiler)⟩ := by
  unfold get
  cases hfind : r.find? load type with
  | error e => exact .inl rfl
  | ok found =>
    cases found with
    | none => exact .inl rfl
    | some compiler => exact .inr ⟨compiler, rfl, rfl⟩

/-- Something is found for listed types only. -/
theorem isSome_lookup_of_find? {r : Registry σ} {type : Text} {compiler : CompilerClass σ}
    (h : r.find? load type = .ok (some compiler)) :
    (r.table.lookup (Mime.normalize type)).isSome = true := by
  unfold find? at h
  cases hlookup : r.table.lookup (Mime.normalize type) with
  | none =>
    rw [hlookup] at h
    cases h
  | some entry => rfl

theorem find?_congr {r : Registry σ} {type type' : Text}
    (h : Mime.normalize type = Mime.normalize type') : r.find? load type = r.find? load type' := by
  rw [find?, find?, h]

/-- What is found for a type is also what stands there to be found afterwards. -/
theorem alike_get (r : Registry σ) (type : Text) : (r.get load type).2.Alike load r := by
  obtain heq | ⟨compiler, hfind, heq⟩ := r.get_cases load type
  · rw [heq]
    exact .refl load r
  · rw [heq]
    refine ⟨EntryTable.map_fst_insert (isSome_lookup_of_find? load hfind) _, fun t => ?_⟩
    by_cases ht : Mime.normalize t = Mime.normalize type
    · rw [find?_congr load (r := r) ht, hfind, find?, EntryTable.lookup_insert, if_pos ht]
    · rw [find?, EntryTable.lookup_insert, if_neg ht, find?]

/-- A look-up leaves a registry behind that answers like the one before. -/
theorem alike_ask (r : Registry σ) (query : Query) : (r.ask load query).2.Alike load r := by
  cases query with
  | get type => exact r.alike_get load type
  | resolve type => exact r.alike_get load type
  | contains type => exact .refl load r
  | types => exact .refl load r

theorem contains_eq (r : Registry σ) (type : Text) :
    r.contains type = decide (Mime.normalize type ∈ r.table.map (·.1)) := by
  rw [contains, Bool.eq_iff_iff]
  simp

theorem fst_resolve (r : Registry σ) (type : Text) :
    (r.resolve load type).1 = match r.find? load type with
      | .ok (some compiler) => .ok compiler
      | .ok none => .error (.unsupported type)
      | .error e => .error (.lookup e) := rfl

/-- Registries that are alike give the same answers. -/
theorem Alike.fst_ask {r r' : Registry σ} (h : r.Alike load r') (query : Query) :
    (r.ask load query).1 = (r'.ask load query).1 := by
  cases query with
  | get type => exact congrArg Answer.found (h.found type)
  | resolve type =>
    refine congrArg Answer.resolved ?_
    rw [fst_resolve, fst_resolve, h.found type]
  | contains type =>
    refine congrArg Answer.isListed ?_
    rw [contains_eq, contains_eq, h.listed]
  | types =>
    refine congrArg Answer.types ?_
    rw [Registry.types, Registry.types, h.listed]

/-- Whatever has been looked up before, the answers are those of the registry at the beginning. -/
theorem askAll_spec (r : Registry σ) (queries : List Query) :
    (r.askAll load queries).1 = queries.map (fun query => (r.ask load query).1) ∧
      (r.askAll load queries).2.Alike load r := by
  induction queries generalizing r with
  | nil => exact ⟨rfl, .refl load r⟩
  | cons query rest ih =>
    obtain ⟨hanswers, halike⟩ := ih (r.ask load query).2
    refine ⟨?_, halike.trans load (r.alike_ask load query)⟩
    rw [List.map_cons, ← List.map_congr_left fun later _ => (r.alike_ask load query).fst_ask load later,
      ← hanswers]
    rfl

/-- What is found for a type and whether it is listed depend on its normal form only. -/
theorem get_congr (r : Registry σ) {type type' : Text}
    (h : Mime.normalize type = Mime.normalize type') :
    (r.get load type).1 = (r.get load type').1 ∧ r.contains type = r.contains type' := by
  refine ⟨find?_congr load h, ?_⟩
  rw [contains_eq, contains_eq, h]

/-- A type is refused, in the words that it was asked for, just where nothing is found for it. -/
theorem resolve_eq_unsupported_iff (r : Registry σ) {type refused : Text} :
    (r.resolve load type).1 = .error (.unsupported refused) ↔
      (r.get load type).1 = .ok none ∧ refused = type := by
  have hget : (r.get load type).1 = r.find? load type := rfl
  rw [fst_resolve, hget]
  cases hfind : r.find? load type with
  | error e => simp
  | ok found => cases found <;> simp [eq_comm]

/-- Look-ups leave no trace that a later one could see. Whatever dotted paths lead to, whatever entries
a registry has been made of, with paths to compilers, to classes or modules that are missing, or to
nothing at all, and whatever has been looked up in it, each answer is that of a registry newly made of
these entries. Types with the same normal form get the same answers, and a type is refused just where
nothing is found for it. -/
theorem askAll_eq_fresh (entries : List (Text × Entry σ)) (queries : List Query) :
    let fresh := ofList entries
    let used := (fresh.askAll load queries).2
    (fresh.askAll load queries).1 = queries.map (fun query => (fresh.ask load query).1) ∧
    (∀ query, (used.ask load query).1 = (fresh.ask load query).1) ∧
    (∀ type type', Mime.normalize type = Mime.normalize type' →
      (used.get load type).1 = (used.get load type').1 ∧ used.contains type = used.contains type') ∧
    ∀ type refused, (used.resolve load type).1 = .error (.unsupported refused) ↔
      (used.get load type).1 = .ok none ∧ refused = type := by
  obtain ⟨hanswers, halike⟩ := (ofList entries).askAll_spec load queries
  exact ⟨hanswers, halike.fst_ask load, fun _ _ => get_congr load _,
    fun _ _ => resolve_eq_unsupported_iff load _⟩

end Registry

end PageSplice

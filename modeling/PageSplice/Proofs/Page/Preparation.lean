-- SUMMARY: Preparation that fails: by the first reference to a resource that cannot be made absolute.
import PageSplice.Proofs.Page.Anchoring

/-!
# Preparation that fails

References are made absolute one after the other, so preparing a page fails as
the first of them does. A reference with dots is reported; one that is read as
a broken address fails as that address does.
-/

namespace PageSplice.Page

-- ---------------------------------------------------------------------------
-- First faults
-- ---------------------------------------------------------------------------

/-- `FirstFault fails l failure`: the first member of `l` that fails does so with `failure`. -/
inductive FirstFault {α : Type} (fails : α → Failure → Prop) : List α → Failure → Prop
  | here {a : α} {rest : List α} {failure : Failure} (h : fails a failure) :
      FirstFault fails (a :: rest) failure
  | later {a : α} {rest : List α} {failure : Failure} (h : ∀ failure, ¬ fails a failure)
      (hrest : FirstFault fails rest failure) : FirstFault fails (a :: rest) failure

theorem FirstFault.exists_mem {α : Type} {fails : α → Failure → Prop} {l : List α}
    {failure : Failure} (h : FirstFault fails l failure) : ∃ a ∈ l, fails a failure := by
  induction h with
  | here h => exact ⟨_, List.mem_cons_self, h⟩
  | later _ _ ih =>
    obtain ⟨a, ha, hfails⟩ := ih
    exact ⟨a, List.mem_cons_of_mem _ ha, hfails⟩

theorem firstFault_map {α β : Type} {fails : β → Failure → Prop} {g : α → β} {l : List α}
    {failure : Failure} :
    FirstFault fails (l.map g) failure ↔ FirstFault (fun a => fails (g a)) l failure := by
  induction l with
  | nil => exact ⟨nofun, nofun⟩
  | cons a rest ih =>
    constructor
    · rintro (h | ⟨h, hrest⟩)
      · exact .here h
      · exact .later h (ih.1 hrest)
    · rintro (h | ⟨h, hrest⟩)
      · exact .here h
      · exact .later h (ih.2 hrest)

/-- A fold whose steps fail by the member alone fails as the first member that does. -/
theorem foldlM_eq_error {α β : Type} {step : β → α → Except Failure β}
    {fails : α → Failure → Prop} (h : ∀ b a failure, step b a = .error failure ↔ fails a failure)
    (l : List α) (b : β) (failure : Failure) :
    l.foldlM step b = .error failure ↔ FirstFault fails l failure := by
  induction l generalizing b with
  | nil => exact ⟨nofun, nofun⟩
  | cons a rest ih =>
    rw [List.foldlM_cons]
    cases hstep : step b a with
    | error e =>
      have hfails := (h b a e).1 hstep
      constructor
      · rintro ⟨⟩
        exact .here hfails
      · rintro (hother | ⟨hnot, -⟩)
        · cases hstep.symm.trans ((h b a failure).2 hother)
          rfl
        · exact absurd hfails (hnot e)
    | ok b' =>
      have hnot (failure : Failure) : ¬ fails a failure := fun hfails => by
        cases hstep.symm.trans ((h b a failure).2 hfails)
      refine (ih b').trans ⟨.later hnot, ?_⟩
      rintro (hother | ⟨-, hrest⟩)
      · exact absurd hother (hnot failure)
      · exact hrest

-- ---------------------------------------------------------------------------
-- References to resources
-- ---------------------------------------------------------------------------

/-- How a reference of the document at `path` cannot be made absolute. -/
inductive ResourceFault (path reference : Text) : Failure → Prop
  /-- It has dots, which is reported. -/
  | dots (h : HasDots reference) : ResourceFault path reference (.traversal reference path)
  /-- It is read as an address, and a broken one. -/
  | address {e : Url.Error} (hdots : ¬ HasDots reference) (hrooted : ¬ IsRooted reference)
      (hsplit : Url.split reference = .error e) : ResourceFault path reference (.url e)

/-- What the resource elements of a document refer to, empty for one that refers to nothing. -/
def resourceReferences (tag : Text) (d : Html.Document) : List Text :=
  (d.elements.filter (·.tag = Text.lower tag)).map fun e => (e.value? "src".toList).getD []

theorem isAbsolute_eq_error {reference : Text} {e : Url.Error} :
    isAbsolute reference = .error e ↔ ¬ IsRooted reference ∧ Url.split reference = .error e := by
  by_cases hrooted : IsRooted reference
  · simp [hrooted, isAbsolute_of_isRooted hrooted]
  · rw [isAbsolute_of_not_isRooted hrooted]
    cases Url.split reference <;> simp [hrooted, Except.map]

theorem canonical?_eq_error {directory : Path} {path reference : Text} {failure : Failure} :
    canonical? directory path reference = .error failure ↔
      ResourceFault path reference failure := by
  constructor
  · intro h
    unfold canonical? at h
    split at h
    · cases h
    · split at h
      · rename_i hdots
        cases h
        exact .dots (hasDotSegment_iff.1 hdots)
      · rename_i hdots
        split at h
        · rename_i e habsolute
          cases h
          obtain ⟨hrooted, hsplit⟩ := isAbsolute_eq_error.1 habsolute
          exact .address (fun h => hdots (hasDotSegment_iff.2 h)) hrooted hsplit
        · cases h
        · cases h
  · rintro (hdots | ⟨hdots, hrooted, hsplit⟩)
    · exact canonical?_of_hasDots hdots directory path
    · have hne : reference.isEmpty = false := by
        cases reference with
        | nil => cases hsplit
        | cons c r => rfl
      unfold canonical?
      rw [hne, if_neg Bool.false_ne_true, if_neg fun h => hdots (hasDotSegment_iff.1 h),
        isAbsolute_eq_error.2 ⟨hrooted, hsplit⟩]

theorem canonicalize_eq_error {directory : Path} {path : Text} (d : Html.Document)
    (r : ResourceRegion) (failure : Failure) :
    canonicalize directory path d r = .error failure ↔
      ResourceFault path (r.reference.getD []) failure := by
  rw [← canonical?_eq_error, canonicalize]
  cases canonical? directory path (r.reference.getD []) with
  | error e => constructor <;> rintro ⟨⟩ <;> rfl
  | ok new => exact ⟨nofun, nofun⟩

/-- The resource regions of a document refer to what its resource elements refer to. -/
theorem references_of_ofElements {rules : RegionRules} {tag : Text} {d : Html.Document}
    {index ordinal : Nat} {elements : List Html.Element} {regions : List Region}
    (h : Region.ofElements rules tag d index ordinal elements = .ok regions) :
    (resourceRegions regions).map ResourceRegion.reference =
      (elements.filter (·.tag = tag)).map (·.value? "src".toList) := by
  induction elements generalizing index ordinal regions with
  | nil =>
    cases h
    rfl
  | cons e rest ih =>
    rcases Region.ofElements_cons h with ⟨region, others, rfl, hregion, hothers⟩ | ⟨hnone, hrest⟩
    · rcases Region.ofElement?_eq_some hregion with ⟨rfl, htag⟩ | ⟨r, language, rfl, -, htag, -⟩
      · rw [List.filter_cons_of_pos (by simpa using htag), List.map_cons, ← ih hothers]
        rfl
      · rw [List.filter_cons_of_neg (by simpa using htag), ← ih hothers]
        rfl
    · have htag : e.tag ≠ tag := by
        intro htag
        unfold Region.ofElement? at hnone
        rw [if_pos htag] at hnone
        cases hnone
      rw [List.filter_cons_of_neg (by simpa using htag), ← ih hrest]

/-- Where the regions of a document are found, preparing it fails just as the first reference to a
resource that cannot be made absolute. -/
theorem prepare_eq_error (workingDirectory : Path) {rules : RegionRules} {markup path tag : Text}
    {d : Html.Document} {regions : List Region} (hparse : Html.Document.parse markup = .ok d)
    (hregions : Region.ofDocument rules d = .ok regions) (htag : rules.resourceTag = .fit tag)
    (failure : Failure) :
    prepare workingDirectory rules markup path = .error failure ↔
      FirstFault (ResourceFault path) (resourceReferences tag d) failure := by
  have hreferences : resourceReferences tag d =
      (resourceRegions regions).map fun r => r.reference.getD [] := by
    obtain ⟨tag', htag', helements⟩ := Region.exists_resourceTag hregions
    cases htag.symm.trans htag'
    have := congrArg (List.map (Option.getD · [])) (references_of_ofElements helements)
    rw [List.map_map, List.map_map] at this
    exact this.symm
  rw [hreferences, firstFault_map,
    ← foldlM_eq_error canonicalize_eq_error (resourceRegions regions) d]
  unfold prepare
  split
  · rename_i e hfails
    cases hparse.symm.trans hfails
  · rename_i d' hparse'
    cases hparse.symm.trans hparse'
    split
    · rename_i e hfails
      cases hregions.symm.trans hfails
    · rename_i regions' hregions'
      cases hregions.symm.trans hregions'
      dsimp only
      cases (resourceRegions regions).foldlM
          (canonicalize (Path.directoryOf workingDirectory path) path) d with
      | error e => constructor <;> rintro ⟨⟩ <;> rfl
      | ok anchored => exact ⟨nofun, nofun⟩

end PageSplice.Page

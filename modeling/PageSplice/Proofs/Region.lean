-- SUMMARY: The regions of a document: which elements they are, and that each element is at most one.
import PageSplice.Region

/-!
# Regions and elements

A region says of which element it is, by its index. Regions stand in document
order, so no two of them are of one element. What a region holds is read off its
element.
-/

namespace PageSplice.Region

variable {rules : RegionRules} {tag : Text} {d : Html.Document} {regions : List Region}

def element : Region → Nat
  | code r => r.element
  | resource r => r.element

def ordinal : Region → Nat
  | code r => r.ordinal
  | resource r => r.ordinal

/-- What is read off an element that is a code region. Its body is long enough, and not blank. -/
theorem codeRegion?_spec {language : Language} {e : Html.Element} {index ordinal : Nat}
    {r : CodeRegion} (h : codeRegion? rules d language e index ordinal = .ok (some r)) :
    r = ⟨language, index, ordinal, declaredType language e, defaultType rules language, d.body e⟩ ∧
      rules.isBelow (d.body e).length = false ∧ Text.blank (d.body e) = false := by
  unfold codeRegion? at h
  simp only at h
  split at h
  · cases h
  · split at h
    · cases h
    · split at h
      · cases h
      · rename_i hlong
        split at h
        · cases h
        · cases h
          exact ⟨rfl, Bool.eq_false_iff.2 fun hbelow => hlong (.inl hbelow),
            Bool.eq_false_iff.2 fun hblank => hlong (.inr hblank)⟩

/-- An element that is a code region has a body that is not blank, and the name of its language. -/
theorem codeRegion?_eq_some {language : Language} {e : Html.Element} {index ordinal : Nat}
    {r : CodeRegion} (h : codeRegion? rules d language e index ordinal = .ok (some r)) :
    r.language = language ∧ r.element = index ∧ r.ordinal = ordinal ∧ r.content = d.body e ∧
      Text.blank (d.body e) = false := by
  obtain ⟨rfl, -, hblank⟩ := codeRegion?_spec h
  exact ⟨rfl, rfl, rfl, rfl, hblank⟩

/-- Code that declares no type has the default of its language. -/
theorem defaultType_of_codeRegion? {language : Language} {e : Html.Element} {index ordinal : Nat}
    {r : CodeRegion} (h : codeRegion? rules d language e index ordinal = .ok (some r)) :
    r.defaultType = defaultType rules r.language := by
  obtain ⟨rfl, -⟩ := codeRegion?_spec h
  rfl

/-- The number of a code region is all of it that its element does not say. -/
theorem codeRegion?_renumber {language : Language} {e : Html.Element} {index ordinal : Nat}
    {r : CodeRegion} (h : codeRegion? rules d language e index ordinal = .ok (some r)) (n : Nat) :
    codeRegion? rules d language e index n = .ok (some { r with ordinal := n }) := by
  obtain ⟨rfl, -⟩ := codeRegion?_spec h
  unfold codeRegion? at h ⊢
  simp only at h ⊢
  split at h
  · cases h
  · rename_i hsource
    rw [if_neg hsource]
    split at h
    · cases h
    · split at h
      · cases h
      · rename_i hlong
        rw [if_neg hlong]
        split at h
        · cases h
        · rename_i hdata
          rw [if_neg hdata]

theorem declaredType_congr {language : Language} {e e' : Html.Element}
    (htype : e'.value? "type".toList = e.value? "type".toList) :
    declaredType language e' = declaredType language e := by
  unfold declaredType
  rw [htype]

/-- The region that a script or style is depends on its type, on whether it has a source, and on its
body. -/
theorem codeRegion?_congr {d' : Html.Document} {language : Language} {e e' : Html.Element}
    (htype : e'.value? "type".toList = e.value? "type".toList)
    (hsource : e'.hasAttribute "src".toList = e.hasAttribute "src".toList)
    (hbody : d'.body e' = d.body e) (index ordinal : Nat) :
    codeRegion? rules d' language e' index ordinal = codeRegion? rules d language e index ordinal := by
  unfold codeRegion?
  rw [declaredType_congr htype, hsource, hbody]

/-- What the region of an element holds. -/
theorem ofElement?_eq_some {e : Html.Element} {index ordinal : Nat} {region : Region}
    (h : ofElement? rules tag d e index ordinal = .ok (some region)) :
    region = .resource ⟨index, ordinal, e.value? "src".toList⟩ ∧ e.tag = tag ∨
    ∃ r language, region = .code r ∧ Language.ofTag? e.tag = some language ∧ e.tag ≠ tag ∧
      codeRegion? rules d language e index ordinal = .ok (some r) := by
  unfold ofElement? at h
  split at h
  · rename_i htag
    cases h
    exact .inl ⟨rfl, htag⟩
  · rename_i htag
    split at h
    · cases h
    · rename_i language hlanguage
      cases hr : codeRegion? rules d language e index ordinal with
      | error misuse =>
        rw [hr] at h
        cases h
      | ok found =>
        rw [hr] at h
        cases found with
        | none => cases h
        | some r =>
          cases h
          exact .inr ⟨r, language, rfl, hlanguage, htag, hr⟩

theorem element_of_ofElement? {e : Html.Element} {index ordinal : Nat} {region : Region}
    (h : ofElement? rules tag d e index ordinal = .ok (some region)) : region.element = index := by
  rcases ofElement?_eq_some h with ⟨rfl, -⟩ | ⟨r, language, rfl, -, -, hr⟩
  · rfl
  · exact (codeRegion?_eq_some hr).2.1

theorem ordinal_of_ofElement? {e : Html.Element} {index ordinal : Nat} {region : Region}
    (h : ofElement? rules tag d e index ordinal = .ok (some region)) : region.ordinal = ordinal := by
  rcases ofElement?_eq_some h with ⟨rfl, -⟩ | ⟨r, language, rfl, -, -, hr⟩
  · rfl
  · exact (codeRegion?_eq_some hr).2.2.1

/-- What the regions of elements are: one by one, the region of an element and then those of the
elements behind it, or those of the elements behind one that is no region. -/
theorem ofElements_cons {index ordinal : Nat} {e : Html.Element} {rest : List Html.Element}
    (h : ofElements rules tag d index ordinal (e :: rest) = .ok regions) :
    (∃ region others, regions = region :: others ∧
      ofElement? rules tag d e index ordinal = .ok (some region) ∧
      ofElements rules tag d (index + 1) (ordinal + 1) rest = .ok others) ∨
    (ofElement? rules tag d e index ordinal = .ok none ∧
      ofElements rules tag d (index + 1) ordinal rest = .ok regions) := by
  unfold ofElements at h
  split at h
  · cases h
  · rename_i region hregion
    cases hrest : ofElements rules tag d (index + 1) (ordinal + 1) rest with
    | error misuse =>
      rw [hrest] at h
      cases h
    | ok others =>
      rw [hrest] at h
      cases h
      exact .inl ⟨region, others, rfl, hregion, rfl⟩
  · rename_i hnone
    exact .inr ⟨hnone, h⟩

theorem mem_ofElements {index ordinal : Nat} {elements : List Html.Element}
    (h : ofElements rules tag d index ordinal elements = .ok regions) {region : Region}
    (hr : region ∈ regions) :
    ∃ i e n, elements[i]? = some e ∧ region.element = index + i ∧
      ofElement? rules tag d e (index + i) n = .ok (some region) := by
  induction elements generalizing index ordinal regions with
  | nil =>
    cases h
    cases hr
  | cons e rest ih =>
    have hlater {ordinal : Nat} {others : List Region}
        (h : ofElements rules tag d (index + 1) ordinal rest = .ok others)
        (hr : region ∈ others) : ∃ i e' n, (e :: rest)[i]? = some e' ∧
          region.element = index + i ∧ ofElement? rules tag d e' (index + i) n = .ok (some region) := by
      obtain ⟨i, e', n, he, helement, hregion⟩ := ih h hr
      rw [Nat.add_assoc, Nat.add_comm 1 i] at helement hregion
      exact ⟨i + 1, e', n, he, helement, hregion⟩
    rcases ofElements_cons h with ⟨first, others, rfl, hfirst, hothers⟩ | ⟨-, hrest⟩
    · rcases List.mem_cons.1 hr with rfl | hr
      · exact ⟨0, e, ordinal, rfl, element_of_ofElement? hfirst, hfirst⟩
      · exact hlater hothers hr
    · exact hlater hrest hr

/-- The region of each element, under the number that it comes to, is among the regions. -/
theorem exists_ordinal_of_ofElements {index ordinal : Nat} {elements : List Html.Element}
    (h : ofElements rules tag d index ordinal elements = .ok regions) {i : Nat} {e : Html.Element}
    (he : elements[i]? = some e) :
    ∃ n, ∀ region, ofElement? rules tag d e (index + i) n = .ok (some region) →
      region ∈ regions := by
  induction elements generalizing index ordinal regions i with
  | nil => cases he
  | cons first rest ih =>
    cases i with
    | zero =>
      cases he
      refine ⟨ordinal, fun region hregion => ?_⟩
      rcases ofElements_cons h with ⟨found, others, rfl, hfound, -⟩ | ⟨hnone, -⟩
      · cases hregion.symm.trans hfound
        exact List.mem_cons_self
      · cases hregion.symm.trans hnone
    | succ i =>
      have hindex : index + (i + 1) = index + 1 + i := by rw [Nat.add_assoc, Nat.add_comm 1 i]
      rw [hindex]
      rcases ofElements_cons h with ⟨region, others, rfl, -, hothers⟩ | ⟨-, hrest⟩
      · obtain ⟨n, hn⟩ := ih hothers he
        exact ⟨n, fun region hregion => List.mem_cons_of_mem _ (hn region hregion)⟩
      · exact ih hrest he

theorem pairwise_ofElements {index ordinal : Nat} {elements : List Html.Element}
    (h : ofElements rules tag d index ordinal elements = .ok regions) :
    regions.Pairwise fun a b => a.element < b.element := by
  induction elements generalizing index ordinal regions with
  | nil =>
    cases h
    exact .nil
  | cons e rest ih =>
    rcases ofElements_cons h with ⟨region, others, rfl, hregion, hothers⟩ | ⟨-, hrest⟩
    · refine List.pairwise_cons.2 ⟨fun later hlater => ?_, ih hothers⟩
      obtain ⟨i, -, -, -, helement, -⟩ := mem_ofElements hothers hlater
      rw [element_of_ofElement? hregion, helement]
      exact Nat.lt_of_lt_of_le (Nat.lt_succ_self index) (Nat.le_add_right _ i)
    · exact ih hrest

theorem ordinal_of_ofElements {index ordinal : Nat} {elements : List Html.Element}
    (h : ofElements rules tag d index ordinal elements = .ok regions) {i : Nat} {region : Region}
    (hi : regions[i]? = some region) : region.ordinal = ordinal + i := by
  induction elements generalizing index ordinal regions i with
  | nil =>
    cases h
    cases hi
  | cons e rest ih =>
    rcases ofElements_cons h with ⟨first, others, rfl, hfirst, hothers⟩ | ⟨-, hrest⟩
    · cases i with
      | zero =>
        cases hi
        exact ordinal_of_ofElement? hfirst
      | succ i =>
        rw [ih hothers hi, Nat.add_assoc, Nat.add_comm 1 i]
    · exact ih hrest hi

-- ---------------------------------------------------------------------------
-- Regions of documents
-- ---------------------------------------------------------------------------

/-- A document has regions only where the name of resource elements is a text. -/
theorem exists_resourceTag (h : ofDocument rules d = .ok regions) :
    ∃ tag, rules.resourceTag = .fit tag ∧
      ofElements rules (Text.lower tag) d 0 0 d.elements = .ok regions := by
  unfold ofDocument at h
  split at h
  · cases h
  · rename_i tag htag
    exact ⟨tag, htag, h⟩

/-- Every region is that of an element. -/
theorem exists_ofElement? (h : ofDocument rules d = .ok regions) {region : Region}
    (hr : region ∈ regions) :
    ∃ tag e i n, rules.resourceTag = .fit tag ∧ d.elements[i]? = some e ∧
      ofElement? rules (Text.lower tag) d e i n = .ok (some region) := by
  obtain ⟨tag, htag, helements⟩ := exists_resourceTag h
  obtain ⟨i, e, n, he, -, hregion⟩ := mem_ofElements helements hr
  rw [Nat.zero_add] at hregion
  exact ⟨tag, e, i, n, htag, he, hregion⟩

/-- A resource region is an element that is called as resource elements are. -/
theorem of_mem_resource (h : ofDocument rules d = .ok regions) {r : ResourceRegion}
    (hr : .resource r ∈ regions) :
    ∃ tag e, rules.resourceTag = .fit tag ∧ d.elements[r.element]? = some e ∧
      e.tag = Text.lower tag ∧ r.reference = e.value? "src".toList := by
  obtain ⟨tag, e, i, n, htag, he, hregion⟩ := exists_ofElement? h hr
  rcases ofElement?_eq_some hregion with ⟨heq, hname⟩ | ⟨_, _, heq, -⟩
  · cases heq
    exact ⟨tag, e, htag, he, hname, rfl⟩
  · cases heq

/-- Every element that is called as resource elements are is a resource region. -/
theorem exists_resource (h : ofDocument rules d = .ok regions) {tag : Text}
    (htag : rules.resourceTag = .fit tag) {i : Nat} {e : Html.Element}
    (he : d.elements[i]? = some e) (hname : e.tag = Text.lower tag) :
    ∃ r, .resource r ∈ regions ∧ r.element = i ∧ r.reference = e.value? "src".toList := by
  obtain ⟨tag', htag', helements⟩ := exists_resourceTag h
  cases htag.symm.trans htag'
  obtain ⟨n, hn⟩ := exists_ordinal_of_ofElements helements he
  exact ⟨_, hn _ (if_pos hname), Nat.zero_add i, rfl⟩

/-- Every code region is that of a script or style that is not called as resource elements are. -/
theorem exists_of_mem_code (h : ofDocument rules d = .ok regions) {r : CodeRegion}
    (hr : .code r ∈ regions) {tag : Text} (htag : rules.resourceTag = .fit tag) :
    ∃ e, d.elements[r.element]? = some e ∧ e.tag ≠ Text.lower tag ∧
      Language.ofTag? e.tag = some r.language ∧
      codeRegion? rules d r.language e r.element r.ordinal = .ok (some r) := by
  obtain ⟨tag', e, i, n, htag', he, hregion⟩ := exists_ofElement? h hr
  cases htag.symm.trans htag'
  rcases ofElement?_eq_some hregion with ⟨heq, -⟩ | ⟨_, language, heq, hlanguage, hname, hcode⟩
  · cases heq
  · cases heq
    obtain ⟨rfl, rfl, rfl, -, -⟩ := codeRegion?_eq_some hcode
    exact ⟨e, he, hname, hlanguage, hcode⟩

/-- Every such script or style that is a code region is among the regions. -/
theorem exists_code (h : ofDocument rules d = .ok regions) {tag : Text}
    (htag : rules.resourceTag = .fit tag) {i : Nat} {e : Html.Element}
    (he : d.elements[i]? = some e) (hname : e.tag ≠ Text.lower tag) {r : CodeRegion} {n : Nat}
    (hlanguage : Language.ofTag? e.tag = some r.language)
    (hcode : codeRegion? rules d r.language e i n = .ok (some r)) :
    ∃ m, .code { r with ordinal := m } ∈ regions := by
  obtain ⟨tag', htag', helements⟩ := exists_resourceTag h
  cases htag.symm.trans htag'
  obtain ⟨m, hm⟩ := exists_ordinal_of_ofElements helements he
  refine ⟨m, hm _ ?_⟩
  rw [Nat.zero_add]
  unfold ofElement?
  rw [if_neg hname, hlanguage]
  dsimp only
  rw [codeRegion?_renumber hcode m]
  rfl

/-- A code region is a script or style with a body that is not blank. -/
theorem of_mem_code (h : ofDocument rules d = .ok regions) {r : CodeRegion}
    (hr : .code r ∈ regions) :
    ∃ e, d.elements[r.element]? = some e ∧ Language.ofTag? e.tag = some r.language ∧
      r.content = d.body e ∧ Text.blank (d.body e) = false := by
  obtain ⟨tag, e, i, n, -, he, hregion⟩ := exists_ofElement? h hr
  rcases ofElement?_eq_some hregion with ⟨heq, -⟩ | ⟨_, language, heq, hlanguage, -, hcode⟩
  · cases heq
  · cases heq
    obtain ⟨rfl, rfl, -, hcontent, hblank⟩ := codeRegion?_eq_some hcode
    exact ⟨e, he, hlanguage, hcontent, hblank⟩

/-- The number of a region is its position among all regions. -/
theorem ordinal_of_ofDocument (h : ofDocument rules d = .ok regions) {i : Nat} {region : Region}
    (hi : regions[i]? = some region) : region.ordinal = i := by
  obtain ⟨tag, -, helements⟩ := exists_resourceTag h
  rw [ordinal_of_ofElements helements hi, Nat.zero_add]

theorem pairwise_ordinal_ofDocument (h : ofDocument rules d = .ok regions) :
    regions.Pairwise fun a b => a.ordinal < b.ordinal := by
  rw [List.pairwise_iff_getElem]
  intro i j hi hj hij
  rw [ordinal_of_ofDocument h (List.getElem?_eq_getElem hi),
    ordinal_of_ofDocument h (List.getElem?_eq_getElem hj)]
  exact hij

/-- Regions stand in document order. -/
theorem pairwise_ofDocument (h : ofDocument rules d = .ok regions) :
    regions.Pairwise fun a b => a.element < b.element := by
  obtain ⟨tag, -, helements⟩ := exists_resourceTag h
  exact pairwise_ofElements helements

-- ---------------------------------------------------------------------------
-- Rules without misfits
-- ---------------------------------------------------------------------------

/-- Whether all that is set of the rules is of the right kind. -/
structure Fits (rules : RegionRules) : Prop where
  resourceTag : ∃ tag, rules.resourceTag = .fit tag
  minLength : ∃ length, rules.minLength = .fit length
  defaultType : ∀ language type, defaultType rules language = some type → ∃ text, type = .fit text

theorem exists_ofElement?_of_fits (hfits : Fits rules) (e : Html.Element) (index ordinal : Nat) :
    ∃ region, ofElement? rules tag d e index ordinal = .ok region := by
  obtain ⟨length, hlength⟩ := hfits.minLength
  unfold ofElement?
  split
  · exact ⟨_, rfl⟩
  · split
    · exact ⟨_, rfl⟩
    · rename_i language _
      have hcode : ∃ found, codeRegion? rules d language e index ordinal = .ok found := by
        simp only [codeRegion?, hlength]
        split
        · exact ⟨_, rfl⟩
        · split
          · exact ⟨_, rfl⟩
          · split
            · exact ⟨_, rfl⟩
            · exact ⟨_, rfl⟩
      obtain ⟨found, hfound⟩ := hcode
      rw [hfound]
      exact ⟨_, rfl⟩

theorem exists_ofElements_of_fits (hfits : Fits rules) (elements : List Html.Element)
    (index ordinal : Nat) : ∃ regions, ofElements rules tag d index ordinal elements = .ok regions := by
  induction elements generalizing index ordinal with
  | nil => exact ⟨[], rfl⟩
  | cons e rest ih =>
    obtain ⟨found, hfound⟩ := exists_ofElement?_of_fits hfits e index ordinal
    unfold ofElements
    rw [hfound]
    cases found with
    | none => exact ih (index + 1) ordinal
    | some region =>
      obtain ⟨others, hothers⟩ := ih (index + 1) (ordinal + 1)
      exact ⟨region :: others, by rw [hothers]; rfl⟩

/-- Under rules without misfits, the regions of every document are found. -/
theorem exists_ofDocument_of_fits (hfits : Fits rules) (d : Html.Document) :
    ∃ regions, ofDocument rules d = .ok regions := by
  obtain ⟨tag, htag⟩ := hfits.resourceTag
  unfold ofDocument
  rw [htag]
  exact exists_ofElements_of_fits hfits d.elements 0 0

/-- Under rules without misfits, every code region has a text for its type. -/
theorem exists_typeText_of_fits (hfits : Fits rules) (h : ofDocument rules d = .ok regions)
    {r : CodeRegion} (hr : .code r ∈ regions) : ∃ type, r.typeText = .ok type := by
  obtain ⟨tag, e, i, n, -, -, hregion⟩ := exists_ofElement? h hr
  rcases ofElement?_eq_some hregion with ⟨heq, -⟩ | ⟨_, language, heq, -, -, hcode⟩
  · cases heq
  · cases heq
    have hdefault := defaultType_of_codeRegion? hcode
    unfold CodeRegion.typeText CodeRegion.mimeType
    cases r.declaredType with
    | some type => exact ⟨type, rfl⟩
    | none =>
      cases htype : r.defaultType with
      | none => exact ⟨[], rfl⟩
      | some type =>
        obtain ⟨text, rfl⟩ := hfits.defaultType r.language type (hdefault.symm.trans htype)
        exact ⟨text, rfl⟩

end PageSplice.Region

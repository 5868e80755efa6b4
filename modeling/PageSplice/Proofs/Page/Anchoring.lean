-- SUMMARY: Resource references: none leads out of its page's directory, and one with dots ends the compilation.
import PageSplice.Proofs.Page.Frame
import PageSplice.Proofs.Path

/-!
# Anchored resources

A relative reference becomes a path below the directory of the page. A piece
that is a dot or two dots could lead elsewhere, so no compilation gets past
one: it ends before any region has been handed to a compiler. References that
are absolute already, and empty ones, stay as they are.
-/

namespace PageSplice.Page

open Build Html.Document

variable {σ : Type}

-- ---------------------------------------------------------------------------
-- References
-- ---------------------------------------------------------------------------

/-- Whether a reference has a piece that is a dot or two dots, between slashes of either kind. -/
def HasDots (reference : Text) : Prop :=
  ∃ piece ∈ referenceSegments reference, piece = ['.'] ∨ piece = ['.', '.']

def IsRooted (reference : Text) : Prop :=
  reference.head? = some '/' ∨ reference.head? = some '\\' ∨ startsWithDrive reference = true

/-- Whether a reference is neither empty nor an absolute path, a path with a drive or a URL with a
scheme. -/
def IsRelative (reference : Text) : Prop :=
  reference ≠ [] ∧ ¬ IsRooted reference ∧
    ∃ parts, Url.split reference = .ok parts ∧ parts.scheme = []

theorem hasDotSegment_iff {reference : Text} : hasDotSegment reference = true ↔ HasDots reference := by
  simp [hasDotSegment, HasDots]

theorem isAbsolute_of_isRooted {reference : Text} (h : IsRooted reference) :
    isAbsolute reference = .ok true := if_pos h

/-- A reference that is no path from a root is absolute just where it is a URL with a scheme. -/
theorem isAbsolute_of_not_isRooted {reference : Text} (h : ¬ IsRooted reference) :
    isAbsolute reference = (Url.split reference).map fun parts => !parts.scheme.isEmpty := by
  refine (if_neg h).trans ?_
  cases Url.split reference <;> rfl

theorem isRelative_iff {reference : Text} :
    IsRelative reference ↔ reference ≠ [] ∧ isAbsolute reference = .ok false := by
  unfold IsRelative
  refine and_congr_right fun _ => ?_
  by_cases hrooted : IsRooted reference
  · simp [hrooted, isAbsolute_of_isRooted hrooted]
  · rw [isAbsolute_of_not_isRooted hrooted]
    cases Url.split reference <;> simp [hrooted, Except.map]

/-- A reference with dots cannot be made absolute. -/
theorem canonical?_of_hasDots {reference : Text} (h : HasDots reference) (directory : Path)
    (path : Text) : canonical? directory path reference = .error (.traversal reference path) := by
  unfold canonical?
  have hne : reference.isEmpty = false := by
    cases reference with
    | nil =>
      obtain ⟨piece, hpiece, hdots⟩ := h
      rw [List.mem_singleton.1 hpiece] at hdots
      exact absurd hdots (by decide)
    | cons c r => rfl
  rw [hne, hasDotSegment_iff.2 h]
  rfl

/-- What can be made absolute has no dots, and just what is relative is changed. -/
theorem canonical?_eq_ok {directory : Path} {path reference : Text} {new : Option Text}
    (h : canonical? directory path reference = .ok new) :
    (¬ HasDots reference ∧ IsRelative reference ∧
      new = some (directory.join (Path.ofText reference)).toText) ∨
    (¬ IsRelative reference ∧ new = none) := by
  rw [isRelative_iff, ← hasDotSegment_iff]
  unfold canonical? at h
  split at h
  · rename_i hempty
    cases h
    exact .inr ⟨fun hrelative => hrelative.1 (List.isEmpty_iff.1 hempty), rfl⟩
  · rename_i hne
    split at h
    · cases h
    · rename_i hdots
      split at h
      · cases h
      · rename_i habsolute
        cases h
        exact .inr ⟨fun hrelative => (nomatch habsolute.symm.trans hrelative.2), rfl⟩
      · rename_i habsolute
        cases h
        exact .inl ⟨hdots, ⟨fun hnil => hne (List.isEmpty_iff.2 hnil), habsolute⟩, rfl⟩

/-- A relative reference is a path without an anchor that leads somewhere, and without dots it leads
downwards. -/
theorem ofText_of_isRelative {reference : Text} (hrelative : IsRelative reference)
    (hdots : ¬ HasDots reference) :
    (Path.ofText reference).anchor = .relative ∧ (Path.ofText reference).segments ≠ [] ∧
      ∀ segment ∈ (Path.ofText reference).segments, segment ≠ ['.', '.'] := by
  obtain ⟨hne, hrooted, -⟩ := hrelative
  have hpiece {piece : Text} (h : piece ∈ Text.splitOn '/' reference)
      (hpiece : piece = ['.'] ∨ piece = ['.', '.']) : False := by
    have hdot : ∀ c ∈ piece, c = '.' := by
      rcases hpiece with rfl | rfl <;> simp
    refine hdots ⟨piece, Text.mem_splitBy_of_mem (fun c hc => ?_) h fun c hc => ?_, hpiece⟩
    · rw [of_decide_eq_true hc]
      rfl
    · rw [hdot c hc]
      rfl
  cases reference with
  | nil => exact absurd rfl hne
  | cons c r =>
    have hc : c ≠ '/' := fun hc => hrooted (.inl (hc ▸ rfl))
    refine ⟨?_, ?_, fun segment hsegment hdots => ?_⟩
    · unfold Path.ofText
      rw [List.takeWhile_cons_of_neg (by simpa using hc)]
      rfl
    · obtain ⟨first, rest, hsplit⟩ :=
        List.exists_cons_of_ne_nil (Text.splitBy_ne_nil (fun d => d = '/') r)
      have hfirst : (c :: first) ∈ Text.splitOn '/' (c :: r) := by
        rw [Text.splitOn, Text.splitBy, if_neg (by simpa using hc), hsplit]
        exact List.mem_cons_self
      refine List.ne_nil_of_mem (List.mem_filter.2 ⟨hfirst, ?_⟩)
      exact decide_eq_true ⟨List.cons_ne_nil _ _, fun hdot => hpiece hfirst (.inl hdot)⟩
    · exact hpiece (List.mem_filter.1 hsegment).1 (.inr hdots)

/-- A relative reference without dots becomes the text of a path below the directory. -/
theorem anchored_spec {directory : Path} (hanchor : directory.anchor ≠ .relative)
    (hsegments : ∀ segment ∈ directory.segments,
      Path.isProper segment = true ∧ '/' ∉ segment ∧ segment ≠ ['.', '.'])
    {reference : Text} (hrelative : IsRelative reference) (hdots : ¬ HasDots reference) :
    let new := (directory.join (Path.ofText reference)).toText
    new.head? = some '/' ∧ (Path.ofText new).IsBelow directory ∧
      ∀ piece ∈ Text.splitOn '/' new, piece ≠ ['.'] ∧ piece ≠ ['.', '.'] := by
  obtain ⟨hbare, hne, hdown⟩ := ofText_of_isRelative hrelative hdots
  have hjoin : directory.join (Path.ofText reference) =
      ⟨directory.anchor, directory.segments ++ (Path.ofText reference).segments⟩ := if_pos hbare
  have hanchored := Path.anchor_join hanchor (Path.ofText reference)
  have hwell : (directory.join (Path.ofText reference)).WellFormed :=
    .join (fun segment h => ⟨(hsegments segment h).1, (hsegments segment h).2.1⟩)
      (Path.wellFormed_ofText reference)
  refine ⟨Path.head?_toText hanchored, ?_, fun piece hpiece => ?_⟩
  · rw [Path.ofText_toText hanchored hwell]
    exact ⟨_, hne, hjoin⟩
  · rcases Path.mem_splitOn_toText hanchored hwell hpiece with rfl | hsegment
    · decide
    · refine ⟨fun hdot => absurd (hwell piece hsegment).1 (hdot ▸ by decide), ?_⟩
      rw [hjoin] at hsegment
      rcases List.mem_append.1 hsegment with hsegment | hsegment
      · exact (hsegments piece hsegment).2.2
      · exact hdown piece hsegment

-- ---------------------------------------------------------------------------
-- Elements
-- ---------------------------------------------------------------------------

/-- An element is changed by the call for its own region, if by any. -/
theorem actAll_anchorCalls {directory : Path} {path : Text} {resources : List ResourceRegion}
    (hdistinct : resources.Pairwise (·.element ≠ ·.element)) {r : ResourceRegion}
    (hr : r ∈ resources) (e : Html.Element) :
    actAll (resources.filterMap (anchorCall? directory path)) r.element e =
      actAll (anchorCall? directory path r).toList r.element e := by
  induction resources generalizing e with
  | nil => cases hr
  | cons first rest ih =>
    obtain ⟨hfirst, hrest⟩ := List.pairwise_cons.1 hdistinct
    have hsplit : (first :: rest).filterMap (anchorCall? directory path) =
        (anchorCall? directory path first).toList ++
          rest.filterMap (anchorCall? directory path) := by
      rw [List.filterMap_cons]
      cases anchorCall? directory path first <;> rfl
    rw [hsplit, actAll, List.foldl_append]
    rcases List.mem_cons.1 hr with rfl | hr
    · refine actAll_eq_self (List.any_eq_false.2 fun call hcall => ?_) (fun call hcall => ?_) _
      · obtain ⟨later, hlater, hanchor⟩ := List.mem_filterMap.1 hcall
        obtain ⟨reference, rfl⟩ := exists_of_anchorCall? hanchor
        simpa [Call.setsTag] using (hfirst later hlater).symm
      · obtain ⟨later, -, hanchor⟩ := List.mem_filterMap.1 hcall
        obtain ⟨reference, rfl⟩ := exists_of_anchorCall? hanchor
        rfl
    · refine (congrArg (actAll _ r.element) ?_).trans (ih hrest hr e)
      cases hanchor : anchorCall? directory path first with
      | none => rfl
      | some call =>
        obtain ⟨reference, rfl⟩ := exists_of_anchorCall? hanchor
        exact if_neg (hfirst r hr)

theorem pairwise_resourceRegions {rules : RegionRules} {d : Html.Document} {regions : List Region}
    (h : Region.ofDocument rules d = .ok regions) :
    (resourceRegions regions).Pairwise fun a b => a.element < b.element := by
  refine List.Pairwise.filterMap _ ?_ (Region.pairwise_ofDocument h)
  intro a b hab r hr r' hr'
  cases a <;> cases hr
  cases b <;> cases hr'
  exact hab

/-- The source of a resource element once the page is prepared. -/
theorem source_of_prepare {workingDirectory : Path} {rules : RegionRules} {markup path tag : Text}
    {d : Html.Document} {page : Prepared markup} (hparse : Html.Document.parse markup = .ok d)
    (hprepare : prepare workingDirectory rules markup path = .ok page)
    (htag : rules.resourceTag = .fit tag)
    (hsecured : Text.lower tag ∉ securedAttributes.map Prod.fst) {i : Nat} {e : Html.Element}
    (he : d.elements[i]? = some e) (hname : e.tag = Text.lower tag) :
    ∃ e' new, page.document.elements[i]? = some e' ∧
      canonical? (Path.directoryOf workingDirectory path) path
        ((e.value? "src".toList).getD []) = .ok new ∧
      e'.value? "src".toList = new.or (e.value? "src".toList) := by
  obtain ⟨d', regions, hparse', hregions, -, hdocument, hnew⟩ := prepare_eq_ok hprepare
  cases hparse.symm.trans hparse'
  obtain ⟨r, hr, rfl, hreference⟩ := Region.exists_resource hregions htag he hname
  have hr := mem_resourceRegions.2 hr
  obtain ⟨new, hcanonical⟩ := hnew r hr
  generalize hanchors : (resourceRegions regions).filterMap
    (anchorCall? (Path.directoryOf workingDirectory path) path) = anchors at hdocument
  obtain ⟨secures, hsecure, hbody, hany⟩ := exists_calls_secureLinks (d.performAll anchors)
  have hanchored : (d.performAll anchors).elements[r.element]? =
      some (actAll anchors r.element e) := by
    rw [getElem?_performAll, he]
    rfl
  have hkept : actAll secures r.element (actAll anchors r.element e) =
      actAll anchors r.element e := by
    refine actAll_eq_self (Bool.eq_false_iff.2 fun hset => ?_) (hbody · · r.element) _
    obtain ⟨name, reference, hmem, -⟩ := (hany _ _ hanchored).1 hset
    rw [tag_actAll, hname] at hmem
    exact hsecured (List.mem_map_of_mem hmem)
  refine ⟨actAll anchors r.element e, new, ?_, hreference ▸ hcanonical, ?_⟩
  · rw [hdocument, hsecure, getElem?_performAll, hanchored, Option.map_some, hkept]
  · rw [← hanchors, actAll_anchorCalls ((pairwise_resourceRegions hregions).imp Nat.ne_of_lt) hr,
      anchorCall?, hcanonical]
    cases new with
    | none => rfl
    | some reference =>
      refine Eq.trans (congrArg (Html.Element.value? · "src".toList) (if_pos rfl)) ?_
      exact Html.Element.value?_setAttribute_self e rfl reference

-- ---------------------------------------------------------------------------
-- Main statement
-- ---------------------------------------------------------------------------

/-- Resource references do not lead out of the directory of their page, whatever the page, its path
and the name of its resource elements, other than `link` and `script`. A compilation of a page with
a reference that has dots fails, and it fails the same way with whatever compilers and leaves the
session as it was. Once a page is prepared, each relative source is an absolute path below the
directory of the page without dots, and all others are as they were. -/
theorem compile_anchors_resources {env : Environment σ} {rules : RegionRules}
    {markup tag : Text} {d : Html.Document} (hanchor : env.workingDirectory.anchor ≠ .relative)
    (hwell : env.workingDirectory.WellFormed) (htag : rules.resourceTag = .fit tag)
    (hlink : Text.lower tag ≠ "link".toList) (hscript : Text.lower tag ≠ "script".toList)
    (hparse : Html.Document.parse markup = .ok d) (path : Text) :
    ((∃ e ∈ d.elements, e.tag = Text.lower tag ∧
        ∃ reference, e.value? "src".toList = some reference ∧ HasDots reference) →
      ∃ failure, ∀ (lookup : Lookup σ) (s : Session σ),
        (compile env ⟨lookup, rules⟩ markup path).run.run s = (.error failure, s)) ∧
    ∀ page : Prepared markup, prepare env.workingDirectory rules markup path = .ok page →
      ∀ (i : Nat) (e : Html.Element), d.elements[i]? = some e → e.tag = Text.lower tag →
        ∃ e', page.document.elements[i]? = some e' ∧
          ((∃ reference, e.value? "src".toList = some reference ∧ IsRelative reference) →
            ∃ new, e'.value? "src".toList = some new ∧ new.head? = some '/' ∧
              (Path.ofText new).IsBelow (Path.directoryOf env.workingDirectory path) ∧
              ∀ piece ∈ Text.splitOn '/' new, piece ≠ ['.'] ∧ piece ≠ ['.', '.']) ∧
          ((¬ ∃ reference, e.value? "src".toList = some reference ∧ IsRelative reference) →
            e'.value? "src".toList = e.value? "src".toList) := by
  have hsecured : Text.lower tag ∉ securedAttributes.map Prod.fst := by
    simpa [securedAttributes] using ⟨hlink, hscript⟩
  constructor
  · rintro ⟨e, he, hname, reference, hvalue, hdots⟩
    obtain ⟨i, he⟩ := List.getElem?_of_mem he
    cases hprepare : prepare env.workingDirectory rules markup path with
    | error failure => exact ⟨failure, fun lookup => run_compile_of_prepare_error hprepare⟩
    | ok page =>
      obtain ⟨-, new, -, hcanonical, -⟩ := source_of_prepare hparse hprepare htag hsecured he hname
      rw [hvalue] at hcanonical
      cases (canonical?_of_hasDots hdots _ _).symm.trans hcanonical
  · intro page hprepare i e he hname
    obtain ⟨e', new, he', hcanonical, hsource⟩ :=
      source_of_prepare hparse hprepare htag hsecured he hname
    refine ⟨e', he', ?_, fun hothers => ?_⟩
    · rintro ⟨reference, hvalue, hrelative⟩
      rw [hvalue] at hcanonical
      obtain ⟨hdots, -, rfl⟩ | ⟨hnot, -⟩ := canonical?_eq_ok hcanonical
      · obtain ⟨hdirectory, hsegments⟩ := Path.directoryOf_spec hanchor hwell path
        exact ⟨_, hsource, anchored_spec hdirectory hsegments hrelative hdots⟩
      · exact absurd hrelative hnot
    · obtain ⟨-, hrelative, -⟩ | ⟨-, rfl⟩ := canonical?_eq_ok hcanonical
      · cases hvalue : e.value? "src".toList with
        | none =>
          rw [hvalue] at hrelative
          exact absurd rfl hrelative.1
        | some reference =>
          rw [hvalue] at hrelative
          exact absurd ⟨reference, hvalue, hrelative⟩ hothers
      · exact hsource

theorem compile_anchors_resources_mixed :
    let env : Environment Unit := ⟨⟨.root, ["srv".toList]⟩, []⟩
    let markup := "<x-require src=a\\b.js><script>xy</script><x-require src=//h/c.js>".toList
    let leading := "<x-require src=a.js><script>xy</script><x-require src=a/..\\b.js>".toList
    (∃ page e new, prepare env.workingDirectory {} markup "p/../q/a.html".toList = .ok page ∧
      page.document.elements[0]? = some e ∧ e.value? "src".toList = some new ∧
      (Path.ofText new).IsBelow ⟨.root, ["srv".toList, "q".toList]⟩) ∧
    ∃ failure, ∀ (lookup : Lookup Unit) (s : Session Unit),
      (compile env ⟨lookup, {}⟩ leading "p/../q/a.html".toList).run.run s = (.error failure, s) := by
  intro env markup leading
  have hwell : env.workingDirectory.WellFormed := by
    unfold Path.WellFormed
    decide
  constructor
  · have hfirst : (Html.Document.parse markup).toOption.map (fun d =>
        d.elements[0]?.map fun e => (e.tag, e.value? "src".toList)) =
        some (some ("x-require".toList, some "a\\b.js".toList)) := by decide +kernel
    obtain ⟨d, hparse, hfirst⟩ := Option.map_eq_some_iff.1 hfirst
    obtain ⟨e, he, hfields⟩ := Option.map_eq_some_iff.1 hfirst
    have hname : e.tag = Text.lower "x-require".toList :=
      (congrArg Prod.fst hfields).trans (by decide)
    have hpage : (prepare env.workingDirectory {} markup "p/../q/a.html".toList).toOption.map
        (·.regions.length) = some 1 := by decide +kernel
    obtain ⟨page, hprepare, -⟩ := Option.map_eq_some_iff.1 hpage
    have hprepare := Html.eq_ok_of_toOption hprepare
    have hparts : Url.split "a\\b.js".toList = .ok ⟨[], "a\\b.js".toList⟩ := by rfl
    obtain ⟨e', he', hrelative, -⟩ := (compile_anchors_resources (by decide) hwell rfl (by decide)
      (by decide) (Html.eq_ok_of_toOption hparse) "p/../q/a.html".toList).2 page hprepare 0 e he hname
    have hrooted : ¬ IsRooted "a\\b.js".toList := by
      unfold IsRooted
      decide
    obtain ⟨new, hnew, -, hbelow, -⟩ :=
      hrelative ⟨_, congrArg Prod.snd hfields, by decide, hrooted, _, hparts, rfl⟩
    exact ⟨page, e', new, hprepare, he', hnew, hbelow⟩
  · have hlast : (Html.Document.parse leading).toOption.map (fun d =>
        d.elements[2]?.map fun e => (e.tag, e.value? "src".toList)) =
        some (some ("x-require".toList, some "a/..\\b.js".toList)) := by decide +kernel
    obtain ⟨d, hparse, hlast⟩ := Option.map_eq_some_iff.1 hlast
    obtain ⟨e, he, hfields⟩ := Option.map_eq_some_iff.1 hlast
    have hname : e.tag = Text.lower "x-require".toList :=
      (congrArg Prod.fst hfields).trans (by decide)
    refine (compile_anchors_resources (by decide) hwell rfl (by decide) (by decide)
      (Html.eq_ok_of_toOption hparse) "p/../q/a.html".toList).1
      ⟨e, List.mem_of_getElem? he, hname, _, congrArg Prod.snd hfields, ['.', '.'], by decide, .inr rfl⟩

end PageSplice.Page

-- SUMMARY: Faults: the failures of a build that are no reports, which are broken references and nothing else.
import PageSplice.Catalog
import PageSplice.Proofs.Page.Cancellation

/-!
# Faults

A failure of a compilation should be a report on the document. With the
compilers that a site has by default, and settings that fit, all are, but for
broken references: an address whose authority is not well-formed, and a NUL
character in the path of a file. Inside a region such a failure is wrapped, so
only the references of the page itself matter, and of them the first.
-/

namespace PageSplice.Page

open Build

variable {σ : Type}

-- ---------------------------------------------------------------------------
-- References to resources
-- ---------------------------------------------------------------------------

/-- Where no delegate cancels, all maps can be printed, every class is found and has instances, and the
rules fit, the faults of a compilation are those of its references to resources. -/
theorem compile_fault_iff {env : Environment σ} {c : PageCompiler σ} {tag : Text}
    (hnever : NeverCancels c.lookup) (hprints : PrintsMaps c.lookup)
    (hserved : ∀ (r : CodeRegion) type, r.typeText = .ok type → IsServed env c.lookup r)
    (hfits : Region.Fits c.rules) (htag : c.rules.resourceTag = .fit tag) (markup path : Text)
    {failure : Failure} (hfault : failure.isReport = false) (s : Session σ) :
    (∃ s', (compile env c markup path).run.run s = (.error failure, s')) ↔
      ∃ d, Html.Document.parse markup = .ok d ∧
        FirstFault (ResourceFault path) (resourceReferences tag d) failure := by
  cases hparse : Html.Document.parse markup with
  | error e =>
    have hprepare : prepare env.workingDirectory c.rules markup path = .error (.malformed e) :=
      prepare_of_malformed hparse
    constructor
    · rintro ⟨s', hfails⟩
      cases (run_compile_of_prepare_error hprepare s).symm.trans hfails
      cases hfault
    · rintro ⟨d, hok, -⟩
      cases hok
  | ok d =>
    obtain ⟨regions, hregions⟩ := Region.exists_ofDocument_of_fits hfits d
    simp only [Except.ok.injEq, exists_eq_left']
    rw [← prepare_eq_error env.workingDirectory hparse hregions htag]
    cases hprepare : prepare env.workingDirectory c.rules markup path with
    | error e =>
      rw [run_compile_of_prepare_error hprepare s]
      constructor
      · rintro ⟨s', ⟨⟩⟩
        rfl
      · rintro ⟨⟩
        exact ⟨s, rfl⟩
    | ok page =>
      refine ⟨?_, nofun⟩
      rintro ⟨s', hfails⟩
      have hrun := run_compile hparse hregions hprepare (fun r hr _ => by
        obtain ⟨type, htype⟩ := Region.exists_typeText_of_fits hfits hregions hr
        exact hserved r type htype) s
      have hreport := isReport_of_outcome hnever hprints (hrun.symm.trans hfails)
      cases hfault.symm.trans hreport

-- ---------------------------------------------------------------------------
-- The compilers that a site has by default
-- ---------------------------------------------------------------------------

/-- The look-up in the registry that a site has by default. -/
def defaultLookup (σ : Type) : Lookup σ := .registry (Catalog.find none) (Settings.registry [])

theorem table_default : (Settings.registry ([] : Settings σ)).table =
    [("text/javascript".toList, .path Settings.passthroughPath),
     ("application/javascript".toList, .path Settings.passthroughPath),
     ("text/css".toList, .path Settings.passthroughPath),
     ("text/html".toList, .path Settings.htmlPath)] := by rfl

theorem find_passthroughPath (minifiers : Option Minifiers) :
    Catalog.find minifiers Settings.passthroughPath = .ok (.delegate (Delegate.passthrough σ)) := by
  cases minifiers <;> rfl

theorem find_htmlPath (minifiers : Option Minifiers) :
    Catalog.find minifiers Settings.htmlPath = .ok (Catalog.html : CompilerClass σ) := by
  cases minifiers <;> rfl

theorem lookup_default {key : Text} {entry : Entry σ}
    (h : (Settings.registry ([] : Settings σ)).table.lookup key = some entry) :
    entry = .path Settings.passthroughPath ∨ entry = .path Settings.htmlPath := by
  obtain ⟨before, after, htable, -⟩ := List.lookup_eq_some_iff.1 h
  have hmem : (key, entry) ∈ (Settings.registry ([] : Settings σ)).table := by
    rw [htable]
    exact List.mem_append_right before List.mem_cons_self
  simp only [table_default, List.mem_cons, Prod.mk.injEq, List.not_mem_nil, or_false] at hmem
  rcases hmem with ⟨-, h⟩ | ⟨-, h⟩ | ⟨-, h⟩ | ⟨-, h⟩
  · exact .inl h
  · exact .inl h
  · exact .inl h
  · exact .inr h

/-- By default a type has no compiler, the one that changes nothing, or the compiler of pages. -/
theorem find?_default (type : Text) :
    (defaultLookup σ).find? type = .ok none ∨
    (defaultLookup σ).find? type = .ok (some (.delegate (Delegate.passthrough σ))) ∨
    (defaultLookup σ).find? type = .ok (some Catalog.html) := by
  rw [defaultLookup, Lookup.find?, Registry.find?]
  cases hentry : (Settings.registry ([] : Settings σ)).table.lookup (Mime.normalize type) with
  | none => exact .inl rfl
  | some entry =>
    rcases lookup_default hentry with rfl | rfl
    · simp only [find_passthroughPath]
      exact .inr (.inl rfl)
    · simp only [find_htmlPath]
      exact .inr (.inr rfl)

theorem neverCancels_default : NeverCancels (defaultLookup σ) := by
  intro type d hfind
  rcases find?_default (σ := σ) type with h | h | h
  · cases h.symm.trans hfind
  · cases h.symm.trans hfind
    exact ⟨fun _ => failsOnly_pure true, fun _ _ => failsOnly_pure _⟩
  · cases h.symm.trans hfind

theorem printsMaps_default : PrintsMaps (defaultLookup σ) := by
  intro type d hfind content identity s made s' hmade
  rcases find?_default (σ := σ) type with h | h | h
  · cases h.symm.trans hfind
  · cases h.symm.trans hfind
    cases (yields_pure.1 hmade).1
    exact hasPrintableMap_of_none rfl
  · cases h.symm.trans hfind

theorem isServed_default (env : Environment σ) {r : CodeRegion} {type : Text}
    (h : r.typeText = .ok type) : IsServed env (defaultLookup σ) r := by
  rcases find?_default (σ := σ) type with hfind | hfind | hfind
  · exact ⟨type, none, h, hfind, nofun⟩
  · refine ⟨type, _, h, hfind, fun compiler hcompiler => ?_⟩
    cases hcompiler
    exact ⟨_, rfl⟩
  · refine ⟨type, _, h, hfind, fun compiler hcompiler => ?_⟩
    cases hcompiler
    exact ⟨_, rfl⟩

-- ---------------------------------------------------------------------------
-- References to files
-- ---------------------------------------------------------------------------

/-- How a reference fails to be that of a file. -/
inductive FileFault (reference : Text) : Failure → Prop
  /-- It is a broken address. -/
  | address {e : Url.Error} (hnear : "//".toList.isPrefixOf (Text.trim reference) = false)
      (hsplit : Url.split (Text.trim reference) = .error e) : FileFault reference (.url e)
  /-- It is the path of a file, with a NUL character in it. -/
  | nul {parts : Url.Parts} (hnear : "//".toList.isPrefixOf (Text.trim reference) = false)
      (hsplit : Url.split (Text.trim reference) = .ok parts) (hfile : parts.scheme ≠ "file".toList)
      (hlocal : parts.scheme = [] ∨ startsWithDrive (Text.trim reference) = true)
      (hnul : '\x00' ∈ Text.before '?' (Text.before '#' (Text.trim reference))) :
      FileFault reference .nulInPath

/-- What the elements of a document depend on, empty for one that depends on nothing. -/
def dependencyReferences (d : Html.Document) : List Text :=
  d.elements.map fun e => (dependencyReference? e).getD []

theorem resolve?_join_eq_none {directory : Path}
    (hdirectory : ∀ segment ∈ directory.segments, '\x00' ∉ segment) (file : Text) :
    (directory.join (Path.ofText file)).resolve? = none ↔ '\x00' ∈ file := by
  rw [← Path.exists_mem_ofText (by decide) (by decide) file, Path.resolve?]
  have hjoin : (∃ segment ∈ (directory.join (Path.ofText file)).segments, '\x00' ∈ segment) ↔
      ∃ segment ∈ (Path.ofText file).segments, '\x00' ∈ segment := by
    unfold Path.join
    split
    · constructor
      · rintro ⟨segment, hsegment, hnul⟩
        rcases List.mem_append.1 hsegment with hsegment | hsegment
        · exact absurd hnul (hdirectory segment hsegment)
        · exact ⟨segment, hsegment, hnul⟩
      · rintro ⟨segment, hsegment, hnul⟩
        exact ⟨segment, List.mem_append_right _ hsegment, hnul⟩
    · exact Iff.rfl
  rw [← hjoin]
  simp

theorem localFile?_eq_error {directory : Path}
    (hdirectory : ∀ segment ∈ directory.segments, '\x00' ∉ segment) (reference : Text)
    (failure : Failure) :
    localFile? directory reference = .error failure ↔ FileFault reference failure := by
  unfold localFile?
  dsimp only
  constructor
  · intro h
    split at h
    · cases h
    · rename_i hnear
      split at h
      · rename_i e hsplit
        cases h
        exact .address (Bool.eq_false_iff.2 hnear) hsplit
      · rename_i parts hsplit
        split at h
        · cases h
        · rename_i hfile
          split at h
          · cases h
          · rename_i hremote
            split at h
            · cases h
            · split at h
              · cases h
              · rename_i hresolve
                cases h
                refine .nul (Bool.eq_false_iff.2 hnear) hsplit hfile ?_
                  ((resolve?_join_eq_none hdirectory _).1 hresolve)
                by_cases hscheme : parts.scheme = []
                · exact .inl hscheme
                · exact .inr (by simpa [hscheme] using hremote)
  · rintro (⟨hnear, hsplit⟩ | @⟨parts, hnear, hsplit, hfile, hlocal, hnul⟩)
    · rw [if_neg (Bool.eq_false_iff.1 hnear), hsplit]
    · have hremote : ¬ (parts.scheme ≠ [] ∧ (!startsWithDrive (Text.trim reference)) = true) := by
        rintro ⟨hscheme, hdrive⟩
        rcases hlocal with h | h
        · exact hscheme h
        · rw [h] at hdrive
          cases hdrive
      have hne : (Text.before '?' (Text.before '#' (Text.trim reference))).isEmpty = false :=
        List.isEmpty_eq_false_iff.2 (List.ne_nil_of_mem hnul)
      rw [if_neg (Bool.eq_false_iff.1 hnear), hsplit]
      dsimp only
      rw [if_neg hfile, if_neg hremote, hne, (resolve?_join_eq_none hdirectory _).2 hnul]
      rfl

theorem addDependency_eq_error {directory : Path}
    (hdirectory : ∀ segment ∈ directory.segments, '\x00' ∉ segment) (found : List Text)
    (e : Html.Element) (failure : Failure) :
    addDependency directory found e = .error failure ↔
      FileFault ((dependencyReference? e).getD []) failure := by
  rw [← localFile?_eq_error hdirectory]
  unfold addDependency
  split
  · rename_i hnone
    rw [hnone]
    exact ⟨nofun, nofun⟩
  · rename_i hempty
    rw [hempty]
    exact ⟨nofun, nofun⟩
  · rename_i reference _ hreference
    rw [hreference, Option.getD_some]
    cases localFile? directory reference with
    | error e => constructor <;> rintro ⟨⟩ <;> rfl
    | ok file => cases file <;> exact ⟨nofun, nofun⟩

/-- The rules of a site that sets nothing fit. -/
theorem fits_rules_nil : Region.Fits (Settings.rules ([] : Settings σ)) where
  resourceTag := ⟨_, rfl⟩
  minLength := ⟨_, rfl⟩
  defaultType language type htype := by
    cases language <;> cases htype
    exact ⟨_, rfl⟩

-- ---------------------------------------------------------------------------
-- Main statement
-- ---------------------------------------------------------------------------

/-- With the compilers that a site has by default, and rules that fit, a compilation of markup ends
in a result, in a report on the document, or as the first reference to a resource that cannot be made
absolute, where that one is a broken address. Finding dependencies ends in a result, in the report
that the markup is malformed, or as the first reference to a file that fails: as a broken address, or
for a NUL character in the path of a file. Neither the path of the document nor the working directory
holds a NUL character. -/
theorem fault_iff_brokenReference {env : Environment σ} {rules : RegionRules} {tag : Text}
    (hfits : Region.Fits rules) (htag : rules.resourceTag = .fit tag)
    (hdirectory : ∀ segment ∈ env.workingDirectory.segments, '\x00' ∉ segment) (markup : Text)
    {path : Text} (hpath : '\x00' ∉ path) {failure : Failure} (hfault : failure.isReport = false) :
    (∀ s, (∃ s', (compile env ⟨defaultLookup σ, rules⟩ markup path).run.run s =
        (.error failure, s')) ↔
      ∃ d, Html.Document.parse markup = .ok d ∧
        FirstFault (ResourceFault path) (resourceReferences tag d) failure) ∧
    (dependencies env (.text markup) path = .error failure ↔
      ∃ d, Html.Document.parse markup = .ok d ∧
        FirstFault FileFault (dependencyReferences d) failure) := by
  constructor
  · exact compile_fault_iff neverCancels_default printsMaps_default
      (fun _ _ => isServed_default env) hfits htag markup path hfault
  · have hnul : ∀ segment ∈ (Path.directoryOf env.workingDirectory path).segments,
        '\x00' ∉ segment := by
      intro segment hsegment hmem
      rcases Path.mem_directoryOf hsegment with hsegment | hsegment
      · exact hdirectory segment hsegment hmem
      · exact hpath ((Path.exists_mem_ofText (by decide) (by decide) path).1 ⟨segment, hsegment, hmem⟩)
    unfold dependencies
    rw [Html.Document.read]
    cases hparse : Html.Document.parse markup with
    | error e =>
      constructor
      · rintro ⟨⟩
        cases hfault
      · rintro ⟨d, hok, -⟩
        cases hok
    | ok d =>
      simp only [Except.ok.injEq, exists_eq_left']
      rw [dependencyReferences, firstFault_map]
      exact foldlM_eq_error (addDependency_eq_error hnul) d.elements [] failure

theorem fault_iff_brokenReference_brackets :
    let env : Environment Unit := ⟨⟨.root, []⟩, []⟩
    let c : PageCompiler Unit := .ofSettings (Catalog.find none) []
    (Failure.url .badBrackets).isReport = false ∧ Failure.nulInPath.isReport = false ∧
    (∃ s', (compile env c "<x-require src=\"http://[\">".toList "/a.html".toList).run.run ⟨(), []⟩ =
      (.error (.url .badBrackets), s')) ∧
    dependencies env (.text "<script src=\"http://[\"></script>".toList) "/a.html".toList =
      .error (.url .badBrackets) ∧
    dependencies env (.text "<script src=\"a\x00b.js\"></script>".toList) "/a.html".toList =
      .error .nulInPath := by
  intro env c
  have hfits : Region.Fits c.rules := fits_rules_nil
  have hdirectory : ∀ segment ∈ env.workingDirectory.segments, '\x00' ∉ segment :=
    List.forall_mem_nil _
  have hpath : '\x00' ∉ "/a.html".toList := by decide
  have hresource : (Html.Document.parse "<x-require src=\"http://[\">".toList).toOption.map
      (resourceReferences "x-require".toList) = some ["http://[".toList] := by decide +kernel
  have hscript : (Html.Document.parse "<script src=\"http://[\"></script>".toList).toOption.map
      dependencyReferences = some ["http://[".toList] := by decide +kernel
  have hfile : (Html.Document.parse "<script src=\"a\x00b.js\"></script>".toList).toOption.map
      dependencyReferences = some ["a\x00b.js".toList] := by decide +kernel
  refine ⟨rfl, rfl, ?_, ?_, ?_⟩
  · obtain ⟨d, hparse, hreferences⟩ := Option.map_eq_some_iff.1 hresource
    have hdots : ¬ HasDots "http://[".toList := by
      unfold HasDots
      decide
    have hrooted : ¬ IsRooted "http://[".toList := by
      unfold IsRooted
      decide
    refine ((fault_iff_brokenReference hfits rfl hdirectory _ hpath rfl).1 ⟨(), []⟩).2
      ⟨d, Html.eq_ok_of_toOption hparse, ?_⟩
    rw [hreferences]
    exact .here (.address hdots hrooted rfl)
  · obtain ⟨d, hparse, hreferences⟩ := Option.map_eq_some_iff.1 hscript
    refine (fault_iff_brokenReference (σ := Unit) hfits rfl hdirectory _ hpath rfl).2.2
      ⟨d, Html.eq_ok_of_toOption hparse, ?_⟩
    rw [hreferences]
    exact .here (.address (by decide) (by rfl))
  · obtain ⟨d, hparse, hreferences⟩ := Option.map_eq_some_iff.1 hfile
    refine (fault_iff_brokenReference (σ := Unit) hfits rfl hdirectory _ hpath rfl).2.2
      ⟨d, Html.eq_ok_of_toOption hparse, ?_⟩
    rw [hreferences]
    exact .here (@FileFault.nul _ ⟨[], "a\x00b.js".toList⟩ (by decide) (by rfl) (by decide) (.inl rfl)
      (by decide))

end PageSplice.Page

-- SUMMARY: Dependencies of a page: which references name files, in which order the files come, and which of them are in normal form.
import Mathlib.Data.List.Basic
import Mathlib.Data.List.Induction
import PageSplice.Proofs.FileTree
import PageSplice.Proofs.Page.Faults

/-!
# Dependencies

The references of a page come from its scripts and links. Those that name a file
are gone through in document order, and each file is listed where it is named
first. A file that is named by a path is listed by its absolute path in normal
form; one that is named by a URL is listed as the URL has it, once decoded. So
the list holds absolute paths in normal form, one for each file, just where the
URLs do.
-/

namespace PageSplice

theorem Text.before_cons {c d : Char} (h : d ≠ c) (r : Text) :
    Text.before c (d :: r) = d :: Text.before c r :=
  List.takeWhile_cons_of_pos (decide_eq_true h)

-- ---------------------------------------------------------------------------
-- Normal form
-- ---------------------------------------------------------------------------

namespace Path

/-- Whether a text is an absolute path in normal form: behind a slash, segments with one slash
between any two of them, none of which is empty, a dot or two dots. -/
def IsNormal (s : Text) : Prop :=
  ∃ segments, (∀ segment ∈ segments,
    isProper segment = true ∧ '/' ∉ segment ∧ segment ≠ ['.', '.']) ∧
    s = (⟨.root, segments⟩ : Path).toText

/-- A path in normal form means the place that its segments are. -/
theorem ofText_of_isNormal {s : Text} (h : IsNormal s) :
    ∃ segments, s = (⟨.root, segments⟩ : Path).toText ∧ ofText s = ⟨.root, segments⟩ ∧
      (⟨.root, segments⟩ : Path).collapse = ⟨.root, segments⟩ := by
  obtain ⟨segments, hsegments, rfl⟩ := h
  refine ⟨segments, rfl, ofText_toText nofun fun segment hsegment => ?_,
    collapse_of_not_mem fun hup => (hsegments _ hup).2.2 rfl⟩
  exact ⟨(hsegments segment hsegment).1, (hsegments segment hsegment).2.1⟩

/-- Two paths in normal form that mean the same place are the same path. -/
theorem IsNormal.eq_of_placeOf {s s' : Text} (h : IsNormal s) (h' : IsNormal s') {cwd : Path}
    (hplace : FileTree.placeOf cwd (ofText s) = FileTree.placeOf cwd (ofText s')) : s = s' := by
  obtain ⟨segments, htext, hof, hcollapse⟩ := ofText_of_isNormal h
  obtain ⟨segments', htext', hof', hcollapse'⟩ := ofText_of_isNormal h'
  have hplaceOf {names : List Text} (hname : (⟨.root, names⟩ : Path).collapse = ⟨.root, names⟩) :
      FileTree.placeOf cwd ⟨.root, names⟩ = names := by
    have hjoin : cwd.join ⟨.root, names⟩ = ⟨.root, names⟩ := if_neg nofun
    rw [FileTree.placeOf, hjoin, hname]
  rw [hof, hof', hplaceOf hcollapse, hplaceOf hcollapse'] at hplace
  rw [htext, htext', hplace]

/-- What a path resolves to is in normal form. -/
theorem isNormal_of_resolve? {p q : Path} (hwell : p.WellFormed) (h : p.resolve? = some q) :
    IsNormal q.toText := by
  unfold resolve? at h
  split at h
  · cases h
  · cases h
    refine ⟨_, fun segment hsegment => ?_, rfl⟩
    obtain ⟨hmem, hup⟩ := mem_collapse hsegment
    exact ⟨(hwell segment hmem).1, (hwell segment hmem).2, hup⟩

end Path

-- ---------------------------------------------------------------------------
-- Schemes
-- ---------------------------------------------------------------------------

namespace Url

def counted (s : Text) : Text :=
  (s.dropWhile fun c => c.toNat ≤ 0x20).filter fun c => !(c = '\t' || c = '\r' || c = '\n')

theorem scheme_of_split {s : Text} {parts : Parts} (h : split s = .ok parts) :
    parts.scheme = (splitScheme (counted s)).1 := by
  rw [counted]
  simp only [split, bind, Except.bind, pure, Except.pure] at h
  split at h
  · split at h <;> cases h
    rfl
  · cases h
    rfl

/-- Neither a slash nor what begins a query or a fragment begins a scheme. -/
theorem scheme_of_head {c : Char} (hc : c ∈ ['/', '?', '#']) {r : Text} {parts : Parts}
    (h : split (c :: r) = .ok parts) : parts.scheme = [] := by
  have hcounted : ∃ r', counted (c :: r) = c :: r' := by
    simp only [List.mem_cons, List.not_mem_nil, or_false] at hc
    rcases hc with rfl | rfl | rfl <;> exact ⟨_, rfl⟩
  obtain ⟨r', hr'⟩ := hcounted
  have hfacts : c ≠ ':' ∧ c.isAlpha = false := by
    simp only [List.mem_cons, List.not_mem_nil, or_false] at hc
    rcases hc with rfl | rfl | rfl <;> decide
  obtain ⟨hcolon, halpha⟩ := hfacts
  rw [scheme_of_split h, hr', splitScheme, Text.before_cons hcolon]
  cases Text.after? ':' (c :: r') with
  | none => rfl
  | some rest =>
    dsimp only
    rw [halpha, Bool.false_and]
    rfl

end Url

namespace Page

-- ---------------------------------------------------------------------------
-- One reference
-- ---------------------------------------------------------------------------

def fileOf? (directory : Path) (reference : Text) : Option Text :=
  (localFile? directory reference).toOption.join

/-- Whether a reference names no file: without white space around it, it is empty, an address
without a scheme, an address of another scheme than that of files, or nothing but a query or a
fragment. -/
def IsSilent (reference : Text) : Prop :=
  Text.trim reference = [] ∨ "//".toList <+: Text.trim reference ∨
  (∃ parts, Url.split (Text.trim reference) = .ok parts ∧ parts.scheme ≠ [] ∧
    parts.scheme ≠ "file".toList ∧ startsWithDrive (Text.trim reference) = false) ∨
  Text.before '?' (Text.before '#' (Text.trim reference)) = []

/-- Whether a reference names a file by a URL, whose path is that text once decoded. -/
def NamesByUrl (reference file : Text) : Prop :=
  ∃ parts, Url.split (Text.trim reference) = .ok parts ∧ parts.scheme = "file".toList ∧
    file = Url.percentDecode parts.path

/-- What stands in front of a query or a fragment is empty where one of them comes first. -/
theorem exists_head_of_before {s : Text} (h : Text.before '?' (Text.before '#' s) = []) :
    s = [] ∨ ∃ c r, c ∈ ['?', '#'] ∧ s = c :: r := by
  cases s with
  | nil => exact .inl rfl
  | cons c r =>
    refine .inr ⟨c, r, Decidable.byContradiction fun hc => ?_, rfl⟩
    obtain ⟨hquery, hfragment⟩ : c ≠ '?' ∧ c ≠ '#' := by simpa using hc
    rw [Text.before_cons hfragment, Text.before_cons hquery] at h
    cases h

/-- A reference that names a file by a URL is not silent. -/
theorem not_isSilent_of_namesByUrl {reference file : Text} (h : NamesByUrl reference file) :
    ¬ IsSilent reference := by
  obtain ⟨parts, hsplit, hscheme, -⟩ := h
  have hfile : parts.scheme ≠ [] := by
    rw [hscheme]
    decide
  rintro (hempty | ⟨r, hr⟩ | ⟨parts', hsplit', -, hother, -⟩ | hbefore)
  · rw [hempty] at hsplit
    cases hsplit
    exact hfile rfl
  · rw [← hr] at hsplit
    exact hfile (Url.scheme_of_head (c := '/') (by decide) hsplit)
  · cases hsplit.symm.trans hsplit'
    exact hother hscheme
  · rcases exists_head_of_before hbefore with hempty | ⟨c, r, hc, hr⟩
    · rw [hempty] at hsplit
      cases hsplit
      exact hfile rfl
    · rw [hr] at hsplit
      exact hfile (Url.scheme_of_head (List.mem_cons_of_mem _ hc) hsplit)

/-- What a reference that does not fail comes to: nothing where it is silent, the decoded path where
it is the URL of a file, and else an absolute path in normal form. -/
theorem localFile?_eq_ok {directory : Path} (hwell : directory.WellFormed) {reference : Text}
    {found : Option Text} (h : localFile? directory reference = .ok found) :
    (IsSilent reference ∧ found = none) ∨
      (∃ file, NamesByUrl reference file ∧ found = some file) ∨
      ∃ file, ¬ IsSilent reference ∧ (∀ other, ¬ NamesByUrl reference other) ∧
        Path.IsNormal file ∧ found = some file := by
  unfold localFile? at h
  dsimp only at h
  split at h
  · rename_i hnear
    cases h
    exact .inl ⟨.inr (.inl (List.isPrefixOf_iff_prefix.1 hnear)), rfl⟩
  · rename_i hnear
    split at h
    · cases h
    · rename_i parts hsplit
      split at h
      · rename_i hfile
        cases h
        exact .inr (.inl ⟨_, ⟨parts, hsplit, hfile, rfl⟩, rfl⟩)
      · rename_i hfile
        split at h
        · rename_i hremote
          cases h
          exact .inl ⟨.inr (.inr (.inl ⟨parts, hsplit, hremote.1, hfile,
            Bool.not_eq_true' _ ▸ hremote.2⟩)), rfl⟩
        · rename_i hlocal
          split at h
          · rename_i hempty
            cases h
            exact .inl ⟨.inr (.inr (.inr (List.isEmpty_iff.1 hempty))), rfl⟩
          · rename_i hne
            split at h
            · rename_i resolved hresolve
              cases h
              refine .inr (.inr ⟨_, ?_, ?_, ?_, rfl⟩)
              · rintro (hempty | hnear' | ⟨parts', hsplit', hscheme, -, hdrive⟩ | hbefore)
                · exact hne (by rw [hempty]; rfl)
                · exact hnear (List.isPrefixOf_iff_prefix.2 hnear')
                · cases hsplit.symm.trans hsplit'
                  exact hlocal ⟨hscheme, by rw [hdrive]; rfl⟩
                · exact hne (List.isEmpty_iff.2 hbefore)
              · rintro other ⟨parts', hsplit', hscheme, -⟩
                cases hsplit.symm.trans hsplit'
                exact hfile hscheme
              · exact Path.isNormal_of_resolve? (hwell.join (Path.wellFormed_ofText _)) hresolve
            · cases h

section OneReference

variable {directory : Path} (hwell : directory.WellFormed) {reference : Text}
  {found : Option Text} (h : localFile? directory reference = .ok found)

include hwell h

theorem eq_none_iff_isSilent : found = none ↔ IsSilent reference := by
  rcases localFile?_eq_ok hwell h with ⟨hsilent, rfl⟩ | ⟨file, hurl, rfl⟩ | ⟨file, hnot, -, -, rfl⟩
  · exact iff_of_true rfl hsilent
  · exact iff_of_false nofun (not_isSilent_of_namesByUrl hurl)
  · exact iff_of_false nofun hnot

theorem eq_some_of_namesByUrl {file : Text} (hurl : NamesByUrl reference file) :
    found = some file := by
  rcases localFile?_eq_ok hwell h with ⟨hsilent, -⟩ | ⟨file', hurl', rfl⟩ | ⟨file', -, hnot, -, -⟩
  · exact absurd hsilent (not_isSilent_of_namesByUrl hurl)
  · obtain ⟨parts, hsplit, -, rfl⟩ := hurl
    obtain ⟨parts', hsplit', -, rfl⟩ := hurl'
    cases hsplit.symm.trans hsplit'
    rfl
  · exact absurd hurl (hnot file)

theorem isNormal_or_namesByUrl {file : Text} (hfound : found = some file) :
    Path.IsNormal file ∨ NamesByUrl reference file := by
  rcases localFile?_eq_ok hwell h with ⟨-, rfl⟩ | ⟨file', hurl, rfl⟩ | ⟨file', -, -, hnormal, rfl⟩
  · cases hfound
  · cases hfound
    exact .inr hurl
  · cases hfound
    exact .inl hnormal

end OneReference

-- ---------------------------------------------------------------------------
-- First appearances
-- ---------------------------------------------------------------------------

/-- Puts a file behind the files found before, once. -/
def note (found : List Text) (file : Text) : List Text :=
  if found.contains file then found else found ++ [file]

/-- Files that are noted one after the other are listed where they appear first. -/
theorem foldl_note (named : List Text) :
    (∀ file, file ∈ named.foldl note [] ↔ file ∈ named) ∧
      (named.foldl note []).Pairwise fun f g => named.idxOf f < named.idxOf g := by
  induction named using List.reverseRecOn with
  | nil => exact ⟨fun file => Iff.rfl, List.Pairwise.nil⟩
  | append_singleton named file ih =>
    obtain ⟨hmem, hordered⟩ := ih
    -- Positions of files that were noted before are as they were.
    have hordered' : (named.foldl note []).Pairwise fun f g =>
        (named ++ [file]).idxOf f < (named ++ [file]).idxOf g := by
      refine hordered.imp_of_mem fun hf hg hlt => ?_
      rwa [List.idxOf_append_of_mem ((hmem _).1 hf), List.idxOf_append_of_mem ((hmem _).1 hg)]
    rw [List.foldl_append, List.foldl_cons, List.foldl_nil, note]
    split
    · rename_i hseen
      have hseen := (hmem file).1 (List.contains_iff_mem.1 hseen)
      refine ⟨fun other => ?_, hordered'⟩
      rw [hmem, List.mem_append, List.mem_singleton]
      exact ⟨.inl, fun hother => hother.elim id fun heq => heq ▸ hseen⟩
    · rename_i hnew
      have hnew : file ∉ named := fun hseen => hnew (List.contains_iff_mem.2 ((hmem file).2 hseen))
      refine ⟨fun other => by rw [List.mem_append, List.mem_append, hmem], ?_⟩
      refine List.pairwise_append.2 ⟨hordered', List.pairwise_singleton _ _, fun f hf g hg => ?_⟩
      rw [List.mem_singleton.1 hg, List.idxOf_append_of_mem ((hmem f).1 hf),
        List.idxOf_append_of_notMem hnew]
      exact Nat.lt_of_lt_of_le (List.idxOf_lt_length_of_mem ((hmem f).1 hf)) (Nat.le_add_right _ _)

-- ---------------------------------------------------------------------------
-- All references
-- ---------------------------------------------------------------------------

theorem addDependency_eq {directory : Path} (found : List Text) (e : Html.Element) :
    addDependency directory found e =
      (localFile? directory ((dependencyReference? e).getD [])).map fun file =>
        file.toList.foldl note found := by
  unfold addDependency
  split
  · rename_i hnone
    rw [hnone]
    rfl
  · rename_i hempty
    rw [hempty]
    rfl
  · rename_i reference _ hreference
    rw [hreference, Option.getD_some]
    rcases localFile? directory reference with failure | _ | file <;> rfl

/-- The dependencies of a document are the files that its references name, each where it is named
first, and no reference fails. -/
theorem dependenciesOf_eq_ok {directory : Path} {d : Html.Document} {files : List Text}
    (h : dependenciesOf directory d = .ok files) :
    files = ((dependencyReferences d).filterMap (fileOf? directory)).foldl note [] ∧
      ∀ reference ∈ dependencyReferences d, localFile? directory reference =
        .ok (fileOf? directory reference) := by
  have general (elements : List Html.Element) (found : List Text)
      (h : elements.foldlM (addDependency directory) found = .ok files) :
      files = ((elements.map fun e => (dependencyReference? e).getD []).filterMap
          (fileOf? directory)).foldl note found ∧
        ∀ reference ∈ elements.map fun e => (dependencyReference? e).getD [],
          localFile? directory reference = .ok (fileOf? directory reference) := by
    induction elements generalizing found with
    | nil =>
      cases h
      exact ⟨rfl, nofun⟩
    | cons e rest ih =>
      rw [List.foldlM_cons, addDependency_eq] at h
      rw [List.map_cons, List.filterMap_cons, List.forall_mem_cons, fileOf?]
      cases hlocal : localFile? directory ((dependencyReference? e).getD []) with
      | error failure =>
        rw [hlocal] at h
        cases h
      | ok file =>
        rw [hlocal] at h
        obtain ⟨hfiles, hrest⟩ := ih _ h
        refine ⟨?_, rfl, hrest⟩
        cases file <;> exact hfiles
  exact general d.elements [] h

theorem dependencies_of_parse {σ : Type} {env : Environment σ} {markup : Text} {d : Html.Document}
    (h : Html.Document.parse markup = .ok d) (path : Text) :
    dependencies env (.text markup) path =
      dependenciesOf (Path.directoryOf env.workingDirectory path) d := by
  unfold dependencies
  rw [Html.Document.read, h]
  rfl

/-- Dependencies fail as the first reference that does. -/
theorem dependencies_fault_iff {σ : Type} {env : Environment σ} (markup : Text) {path : Text}
    (hdirectory : ∀ segment ∈ (Path.directoryOf env.workingDirectory path).segments,
      '\x00' ∉ segment)
    {failure : Failure} (hfault : failure.isReport = false) :
    dependencies env (.text markup) path = .error failure ↔
      ∃ d, Html.Document.parse markup = .ok d ∧
        FirstFault FileFault (dependencyReferences d) failure := by
  cases hparse : Html.Document.parse markup with
  | error e =>
    unfold dependencies
    rw [Html.Document.read, hparse]
    constructor
    · rintro ⟨⟩
      cases hfault
    · rintro ⟨d, hok, -⟩
      cases hok
  | ok d =>
    simp only [Except.ok.injEq, exists_eq_left']
    rw [dependencies_of_parse hparse, dependencyReferences, firstFault_map]
    exact foldlM_eq_error (addDependency_eq_error hdirectory) d.elements [] failure

theorem exists_parse_of_dependencies {σ : Type} {env : Environment σ} {markup path : Text}
    {files : List Text} (h : dependencies env (.text markup) path = .ok files) :
    ∃ d, Html.Document.parse markup = .ok d := by
  cases hparse : Html.Document.parse markup with
  | ok d => exact ⟨d, rfl⟩
  | error e =>
    unfold dependencies at h
    rw [Html.Document.read, hparse] at h
    cases h

-- ---------------------------------------------------------------------------
-- Main statement
-- ---------------------------------------------------------------------------

/-- The dependencies of a page are the files that its references name, in the order in which they are
named first. A reference names none just where it is silent. A file is listed by its absolute path in
normal form, or as the URL has it that names it; so all entries are in normal form just where the
decoded paths of these URLs are. Then no two entries are the same file, however paths are read. -/
theorem files_of_dependencies {σ : Type} {env : Environment σ}
    (hanchor : env.workingDirectory.anchor ≠ .relative) (hwell : env.workingDirectory.WellFormed)
    {markup path : Text} {files : List Text}
    (h : dependencies env (.text markup) path = .ok files) :
    ∃ d, Html.Document.parse markup = .ok d ∧
      let references := dependencyReferences d
      let named := references.filterMap (fileOf? (Path.directoryOf env.workingDirectory path))
      (∀ file, file ∈ files ↔ file ∈ named) ∧
      (files.Pairwise fun f g => named.idxOf f < named.idxOf g) ∧
      (∀ reference ∈ references,
        fileOf? (Path.directoryOf env.workingDirectory path) reference = none ↔
          IsSilent reference) ∧
      (∀ reference ∈ references, ∀ file,
        fileOf? (Path.directoryOf env.workingDirectory path) reference = some file →
          Path.IsNormal file ∨ NamesByUrl reference file) ∧
      ((∀ file ∈ files, Path.IsNormal file) ↔
        ∀ reference ∈ references, ∀ file, NamesByUrl reference file → Path.IsNormal file) ∧
      ((∀ file ∈ files, Path.IsNormal file) → ∀ cwd : Path, files.Pairwise fun f g =>
        FileTree.placeOf cwd (Path.ofText f) ≠ FileTree.placeOf cwd (Path.ofText g)) := by
  obtain ⟨d, hparse⟩ := exists_parse_of_dependencies h
  rw [dependencies_of_parse hparse] at h
  obtain ⟨hfiles, hnone⟩ := dependenciesOf_eq_ok h
  have hdirectory : (Path.directoryOf env.workingDirectory path).WellFormed := by
    intro segment hsegment
    obtain ⟨hproper, hslash, -⟩ := (Path.directoryOf_spec hanchor hwell path).2 segment hsegment
    exact ⟨hproper, hslash⟩
  obtain ⟨hmem, hordered⟩ := foldl_note ((dependencyReferences d).filterMap
    (fileOf? (Path.directoryOf env.workingDirectory path)))
  rw [← hfiles] at hmem hordered
  refine ⟨d, hparse, hmem, hordered,
    fun reference hreference => eq_none_iff_isSilent hdirectory (hnone reference hreference),
    fun reference hreference file => isNormal_or_namesByUrl hdirectory (hnone reference hreference),
    ⟨fun hnormal reference hreference file hurl => ?_, fun hurls file hfile => ?_⟩,
    fun hnormal cwd => ?_⟩
  · refine hnormal file ((hmem file).2 (List.mem_filterMap.2 ⟨reference, hreference, ?_⟩))
    exact eq_some_of_namesByUrl hdirectory (hnone reference hreference) hurl
  · obtain ⟨reference, hreference, hfound⟩ := List.mem_filterMap.1 ((hmem file).1 hfile)
    rcases isNormal_or_namesByUrl hdirectory (hnone reference hreference) hfound with hnormal | hurl
    · exact hnormal
    · exact hurls reference hreference file hurl
  · refine hordered.imp_of_mem fun hf hg hlt hplace => ?_
    rw [(hnormal _ hf).eq_of_placeOf (hnormal _ hg) hplace] at hlt
    exact Nat.lt_irrefl _ hlt

theorem files_of_dependencies_mixed :
    let env : Environment Unit := ⟨⟨.root, []⟩, []⟩
    let markup := "<script src=\"a/../b.js?v\"></script><link rel=stylesheet href=file:/x/%63.css>".toList ++
      "<script src=/d/b.js></script><script src=//h/z.js></script>".toList
    let files := ["/d/b.js".toList, "/x/c.css".toList]
    env.workingDirectory.anchor ≠ .relative ∧ env.workingDirectory.WellFormed ∧
    dependencies env (.text markup) "/d/p.html".toList = .ok files ∧
    (∀ file ∈ files, Path.IsNormal file) ∧
    (files.Pairwise fun f g =>
      FileTree.placeOf ⟨.root, []⟩ (Path.ofText f) ≠ FileTree.placeOf ⟨.root, []⟩ (Path.ofText g)) ∧
    ∃ d, Html.Document.parse markup = .ok d ∧ ∀ reference ∈ dependencyReferences d,
      fileOf? (Path.directoryOf env.workingDirectory "/d/p.html".toList) reference = none ↔
        IsSilent reference := by
  intro env markup files
  have hdependencies : dependencies env (.text markup) "/d/p.html".toList = .ok files :=
    Html.eq_ok_of_toOption (by decide +kernel)
  have hanchor : env.workingDirectory.anchor ≠ .relative := by simp [env]
  have hwell : env.workingDirectory.WellFormed := List.forall_mem_nil _
  have hnormal : ∀ file ∈ files, Path.IsNormal file := by
    refine List.forall_mem_cons.2 ⟨?_, List.forall_mem_singleton.2 ?_⟩
    · exact ⟨["d".toList, "b.js".toList], by decide, rfl⟩
    · exact ⟨["x".toList, "c.css".toList], by decide, rfl⟩
  obtain ⟨d, hparse, -, -, hsilent, -, -, hplaces⟩ :=
    files_of_dependencies hanchor hwell hdependencies
  exact ⟨hanchor, hwell, hdependencies, hnormal, hplaces hnormal _, d, hparse, hsilent⟩

/-- A file whose URL is not in normal form is listed once more by its path. -/
example :
    (dependencies (σ := Unit) ⟨⟨.root, []⟩, []⟩
      (.text "<script src=file:/d/../d/a.js></script><script src=a.js></script>".toList)
      "/d/p.html".toList).toOption = some ["/d/../d/a.js".toList, "/d/a.js".toList] := by
  decide +kernel

end Page

end PageSplice

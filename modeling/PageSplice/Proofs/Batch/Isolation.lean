-- SUMMARY: Isolation: the files of a run are treated as if each were alone, up to one that ends the run.
import PageSplice.Proofs.Batch.Treatment
import PageSplice.Proofs.Page.Dependencies

/-!
# Isolation of the files of a run

Where what is made of pages is printed, a treatment leaves the file tree as it
was, and each file has a context of its own. So what comes of a file does not
depend on the others, and the report of a run is put together from what comes
of each file alone. The exception is a file that ends the run. With the
compilers that a site has by default these are the files whose paths hold a NUL
character, and the pages with a broken reference: what is wrong with those is
no report, and no file after them is treated.
-/

namespace PageSplice.Batch

open Build FileTree

variable {σ : Type} {env : Environment σ} {c : PageCompiler σ} {fresh : σ} {request : Request}
  {tree tree' : FileTree} {path : Path}

-- ---------------------------------------------------------------------------
-- One file
-- ---------------------------------------------------------------------------

/-- What comes of a file depends on its own content only, and the tree stays. -/
theorem treat_congr (hprints : request.Prints)
    (h : tree'.read env.workingDirectory path = tree.read env.workingDirectory path) :
    treat env c fresh request tree' path =
      { treat env c fresh request tree path with tree := tree' } := by
  have hpage : readPage env.workingDirectory tree' path =
      readPage env.workingDirectory tree path := by
    rw [readPage, readPage, h]
  cases hhtml : Mime.isHtmlPath path.toText with
  | false => rw [treat_of_notHtml hhtml, treat_of_notHtml hhtml]
  | true =>
    cases hdry : request.isDryRun with
    | true => rw [treat_of_isDryRun hhtml hdry, treat_of_isDryRun hhtml hdry]
    | false =>
      cases hread : readPage env.workingDirectory tree path with
      | error failure =>
        rw [treat_of_unread hhtml hdry (hpage.trans hread), treat_of_unread hhtml hdry hread]
      | ok markup =>
        rcases hbuild : (build env c request markup path.toText).run.run ⟨fresh, []⟩ with
          ⟨failure | product, session⟩
        · rw [treat_of_unbuilt hhtml hdry (hpage.trans hread) hbuild,
            treat_of_unbuilt hhtml hdry hread hbuild]
        · rw [treat_of_emitted hhtml hdry (hpage.trans hread) hbuild (emit_of_prints hprints product),
            treat_of_emitted hhtml hdry hread hbuild (emit_of_prints hprints product)]

theorem tree_treat (hprints : request.Prints) :
    (treat env c fresh request tree path).tree = tree :=
  congrArg Treatment.tree (treat_congr hprints rfl)

-- ---------------------------------------------------------------------------
-- Files that end the run
-- ---------------------------------------------------------------------------

theorem isReport_of_not_isHandled {failure : Failure} (h : isHandled failure = false) :
    failure.isReport = false := by
  cases failure <;> first | rfl | cases h

theorem fault?_failed {e failure : Failure} {printed : Text} {session : Session σ} :
    (Treatment.mk (.failed e) printed session tree).fault? = some failure ↔
      isHandled e = false ∧ e = failure := by
  cases hhandled : isHandled e <;> simp [Treatment.fault?, hhandled]

/-- How a page ends a run: the first of its references that is no good is a broken one. -/
inductive IsBroken (tag : Text) (request : Request) (path : Path) (d : Html.Document) :
    Failure → Prop
  | resource {e : Url.Error} (hcompiles : request.listsDependencies = false)
      (hfirst : Page.FirstFault (Page.ResourceFault path.toText) (Page.resourceReferences tag d)
        (.url e)) : IsBroken tag request path d (.url e)
  | file {failure : Failure} (hlists : request.listsDependencies = true)
      (hfirst : Page.FirstFault Page.FileFault (Page.dependencyReferences d) failure) :
      IsBroken tag request path d failure

/-- How a file ends a run that treats pages: no file can have its path, or it is a broken page. -/
def EndsRun (cwd : Path) (tag : Text) (request : Request) (tree : FileTree) (path : Path)
    (failure : Failure) : Prop :=
  Mime.isHtmlPath path.toText = true ∧ request.isDryRun = false ∧
    (path.HoldsNul ∧ failure = .nulInPath ∨
      ∃ markup d, readPage cwd tree path = .ok markup ∧ Html.Document.parse markup = .ok d ∧
        IsBroken tag request path d failure)

theorem not_isHandled_of_isBroken {tag : Text} {d : Html.Document} {failure : Failure}
    (h : IsBroken tag request path d failure) : isHandled failure = false := by
  cases h with
  | resource _ _ => rfl
  | file _ hfirst =>
    obtain ⟨reference, -, hfault⟩ := hfirst.exists_mem
    cases hfault <;> rfl

section Pages

variable {tag : Text} (hhtml : Mime.isHtmlPath path.toText = true)
  (hdry : request.isDryRun = false)

include hhtml hdry

theorem endsRun_of_unread {cwd : Path} {e failure : Failure}
    (hread : readPage cwd tree path = .error e) :
    EndsRun cwd tag request tree path failure ↔ isHandled e = false ∧ e = failure := by
  simp only [EndsRun, hhtml, hdry, true_and]
  constructor
  · rintro (⟨hnul, rfl⟩ | ⟨markup, d, hok, -⟩)
    · cases hread.symm.trans ((readPage_eq_error rfl).2 ⟨hnul, rfl⟩)
      exact ⟨rfl, rfl⟩
    · cases hread.symm.trans hok
  · rintro ⟨hunhandled, rfl⟩
    exact .inl ((readPage_eq_error hunhandled).1 hread)

theorem endsRun_of_page {cwd : Path} {markup : Text} {failure : Failure}
    (hread : readPage cwd tree path = .ok markup) :
    EndsRun cwd tag request tree path failure ↔
      ∃ d, Html.Document.parse markup = .ok d ∧ IsBroken tag request path d failure := by
  simp only [EndsRun, hhtml, hdry, true_and]
  constructor
  · rintro (⟨hnul, -⟩ | ⟨_, d, hok, hbroken⟩)
    · exact absurd hnul (readPage_eq_ok.1 hread).1
    · cases hread.symm.trans hok
      exact ⟨d, hbroken⟩
  · rintro ⟨d, hbroken⟩
    exact .inr ⟨markup, d, hread, hbroken⟩

/-- A page that is printed ends the run just where its build does. -/
theorem fault?_treat_of_page (hprints : request.Prints) {markup : Text} {failure : Failure}
    (hread : readPage env.workingDirectory tree path = .ok markup) :
    (treat env c fresh request tree path).fault? = some failure ↔
      isHandled failure = false ∧
        ∃ s', (build env c request markup path.toText).run.run ⟨fresh, []⟩ =
          (.error failure, s') := by
  rcases hbuild : (build env c request markup path.toText).run.run ⟨fresh, []⟩ with
    ⟨e | product, session⟩
  · rw [treat_of_unbuilt hhtml hdry hread hbuild, fault?_failed]
    constructor
    · rintro ⟨hunhandled, rfl⟩
      exact ⟨hunhandled, session, rfl⟩
    · rintro ⟨hunhandled, s', hfails⟩
      cases hfails
      exact ⟨hunhandled, rfl⟩
  · rw [treat_of_emitted hhtml hdry hread hbuild (emit_of_prints hprints product)]
    constructor
    · rintro ⟨⟩
    · rintro ⟨-, s', ⟨⟩⟩

end Pages

/-- What becomes of the value of a build does not change how it fails. -/
theorem exists_fails_map {α β : Type} {build : Build σ α} {f : α → β} {s : Session σ}
    {failure : Failure} :
    (∃ s', (f <$> build).run.run s = (.error failure, s')) ↔
      ∃ s', build.run.run s = (.error failure, s') := by
  rw [run_map]
  rcases build.run.run s with ⟨e | a, s₁⟩
  · constructor <;>
    · rintro ⟨s', ⟨⟩⟩
      exact ⟨_, rfl⟩
  · constructor <;>
    · rintro ⟨s', ⟨⟩⟩

theorem eq_error_of_map {α β : Type} {result : Except Failure α} {f : α → β} {failure : Failure}
    (h : result.map f = .error failure) : result = .error failure := by
  cases result <;> cases h
  rfl

theorem findsCompilers_default : Page.FindsCompilers (Page.defaultLookup σ) := by
  intro type name hfind
  rcases Page.find?_default (σ := σ) type with h | h | h <;> cases h.symm.trans hfind

section Default

variable {rules : RegionRules} {tag : Text} (hfits : Region.Fits rules)
  (htag : rules.resourceTag = .fit tag)
  (hdirectory : ∀ segment ∈ env.workingDirectory.segments, '\x00' ∉ segment)

include hdirectory in
theorem build_fault_of_lists (hlists : request.listsDependencies = true) (hpath : ¬ path.HoldsNul)
    (markup : Text) {failure : Failure} (hreport : failure.isReport = false) (s : Session σ) :
    (∃ s', (build env ⟨Page.defaultLookup σ, rules⟩ request markup path.toText).run.run s =
        (.error failure, s')) ↔
      ∃ d, Html.Document.parse markup = .ok d ∧ IsBroken tag request path d failure := by
  have hfault := Page.dependencies_fault_iff (σ := σ) markup
    (Path.not_mem_directoryOf hdirectory hpath) hreport
  rw [run_build_of_lists hlists]
  constructor
  · rintro ⟨s', hfails⟩
    obtain ⟨d, hparse, hfirst⟩ := hfault.1 (eq_error_of_map (congrArg Prod.fst hfails))
    exact ⟨d, hparse, .file hlists hfirst⟩
  · rintro ⟨d, hparse, hbroken⟩
    cases hbroken with
    | resource hcompiles _ => cases hcompiles.symm.trans hlists
    | file _ hfirst =>
      rw [hfault.2 ⟨d, hparse, hfirst⟩]
      exact ⟨s, rfl⟩

include hfits htag in
theorem build_fault_of_compiles (hcompiles : request.listsDependencies = false) (path : Path)
    (markup : Text) {failure : Failure} (hreport : failure.isReport = false) (s : Session σ) :
    (∃ s', (build env ⟨Page.defaultLookup σ, rules⟩ request markup path.toText).run.run s =
        (.error failure, s')) ↔
      ∃ d, Html.Document.parse markup = .ok d ∧ IsBroken tag request path d failure := by
  have hfault := @Page.compile_fault_iff _ env ⟨Page.defaultLookup σ, rules⟩ _
    Page.neverCancels_default Page.printsMaps_default (fun _ _ => Page.isServed_default env) hfits
    htag markup path.toText _ hreport s
  rw [build_of_compiles hcompiles fun _ => findsCompilers_default, exists_fails_map, hfault]
  constructor
  · rintro ⟨d, hparse, hfirst⟩
    obtain ⟨reference, -, hfails⟩ := hfirst.exists_mem
    cases hfails with
    | dots => cases hreport
    | address => exact ⟨d, hparse, .resource hcompiles hfirst⟩
  · rintro ⟨d, hparse, hbroken⟩
    cases hbroken with
    | resource _ hfirst => exact ⟨d, hparse, hfirst⟩
    | file hlists _ => cases hlists.symm.trans hcompiles

include hfits htag hdirectory

/-- What the build of a page ends with, where that is no report, comes of a broken reference. -/
theorem build_fault_iff (request : Request) (hpath : ¬ path.HoldsNul) (markup : Text)
    {failure : Failure} (hunhandled : isHandled failure = false) (s : Session σ) :
    (∃ s', (build env ⟨Page.defaultLookup σ, rules⟩ request markup path.toText).run.run s =
        (.error failure, s')) ↔
      ∃ d, Html.Document.parse markup = .ok d ∧ IsBroken tag request path d failure := by
  have hreport := isReport_of_not_isHandled hunhandled
  cases hlists : request.listsDependencies with
  | true => exact build_fault_of_lists hdirectory hlists hpath markup hreport s
  | false => exact build_fault_of_compiles hfits htag hlists path markup hreport s

/-- The files that end a run are those whose paths hold a NUL character and the broken pages. -/
theorem fault?_treat (hprints : request.Prints) (fresh : σ) (tree : FileTree) (path : Path)
    (failure : Failure) :
    (treat env ⟨Page.defaultLookup σ, rules⟩ fresh request tree path).fault? = some failure ↔
      EndsRun env.workingDirectory tag request tree path failure := by
  cases hhtml : Mime.isHtmlPath path.toText with
  | false =>
    rw [treat_of_notHtml hhtml]
    exact ⟨nofun, fun h => by cases hhtml.symm.trans h.1⟩
  | true =>
    cases hdry : request.isDryRun with
    | true =>
      rw [treat_of_isDryRun hhtml hdry]
      exact ⟨nofun, fun h => by cases hdry.symm.trans h.2.1⟩
    | false =>
      cases hread : readPage env.workingDirectory tree path with
      | error e =>
        rw [treat_of_unread hhtml hdry hread, fault?_failed, endsRun_of_unread hhtml hdry hread]
      | ok markup =>
        obtain ⟨hpath, -⟩ := readPage_eq_ok.1 hread
        have hfails {failure : Failure} (hunhandled : isHandled failure = false) :=
          build_fault_iff hfits htag hdirectory request hpath markup hunhandled ⟨fresh, []⟩
        rw [fault?_treat_of_page hhtml hdry hprints hread, endsRun_of_page hhtml hdry hread]
        constructor
        · rintro ⟨hunhandled, hfault⟩
          exact (hfails hunhandled).1 hfault
        · rintro ⟨d, hparse, hbroken⟩
          have hunhandled := not_isHandled_of_isBroken hbroken
          exact ⟨hunhandled, (hfails hunhandled).2 ⟨d, hparse, hbroken⟩⟩

end Default

-- ---------------------------------------------------------------------------
-- All files
-- ---------------------------------------------------------------------------

section Run

variable (hprints : request.Prints)

include hprints

theorem treatAll_cons (paths : List Path) :
    treatAll env c fresh request tree (path :: paths) =
      (path, treat env c fresh request tree path) ::
        if (treat env c fresh request tree path).fault?.isSome then []
        else treatAll env c fresh request tree paths := by
  rw [treatAll, tree_treat hprints]

theorem treatAll_isPrefix (paths : List Path) :
    treatAll env c fresh request tree paths <+:
      paths.map fun path => (path, treat env c fresh request tree path) := by
  induction paths with
  | nil => exact List.prefix_refl _
  | cons path rest ih =>
    rw [treatAll_cons hprints, List.map_cons]
    refine (List.prefix_cons_inj _).2 ?_
    split
    · exact List.nil_prefix
    · exact ih

/-- The first file that ends the run does so, and those after it are not treated. -/
theorem findSome?_treatAll (paths : List Path) (failure : Failure) :
    (treatAll env c fresh request tree paths).findSome? (·.2.fault?) = some failure ↔
      Page.FirstFault
        (fun path failure => (treat env c fresh request tree path).fault? = some failure)
        paths failure := by
  induction paths with
  | nil => exact ⟨nofun, nofun⟩
  | cons path rest ih =>
    rw [treatAll_cons hprints, List.findSome?_cons]
    cases hfault : (treat env c fresh request tree path).fault? with
    | some e =>
      constructor
      · rintro ⟨⟩
        exact .here hfault
      · rintro (hhere | ⟨hnone, -⟩)
        · exact hfault.symm.trans hhere
        · exact absurd hfault (hnone e)
    | none =>
      refine ih.trans ⟨fun hrest => .later (fun e he => ?_) hrest, ?_⟩
      · cases hfault.symm.trans he
      · rintro (hhere | ⟨-, hrest⟩)
        · cases hfault.symm.trans hhere
        · exact hrest

/-- In a run that comes to its end, every file is treated. -/
theorem treatAll_eq_map {paths : List Path}
    (hnone : (treatAll env c fresh request tree paths).findSome? (·.2.fault?) = none) :
    (treatAll env c fresh request tree paths =
      paths.map fun path => (path, treat env c fresh request tree path)) ∧
      ∀ path ∈ paths, (treat env c fresh request tree path).fault? = none := by
  induction paths with
  | nil => exact ⟨rfl, List.forall_mem_nil _⟩
  | cons path rest ih =>
    rw [treatAll_cons hprints, List.findSome?_cons] at hnone
    cases hfault : (treat env c fresh request tree path).fault? with
    | some e => simp [hfault] at hnone
    | none =>
      rw [hfault] at hnone
      obtain ⟨hrest, hfaults⟩ := ih hnone
      rw [treatAll_cons hprints, hfault, List.map_cons, ← hrest]
      exact ⟨rfl, List.forall_mem_cons.2 ⟨hfault, hfaults⟩⟩

theorem tree_run : (run env c fresh request tree).tree = tree := by
  rw [run]
  dsimp only
  cases hlast : (treatAll env c fresh request tree (request.paths.map Path.ofText)).getLast? with
  | none => rfl
  | some treated =>
    have hmem := (treatAll_isPrefix hprints _).subset (List.mem_of_getLast? hlast)
    obtain ⟨path, -, rfl⟩ := List.mem_map.1 hmem
    exact tree_treat hprints

end Run

-- ---------------------------------------------------------------------------
-- The report
-- ---------------------------------------------------------------------------

theorem summary_map (treated : Path → Treatment σ) (paths : List Path) :
    summary request (paths.map fun path => (path, treated path)) =
      summaryLine request (paths.countP fun path => (treated path).isCompiled)
        (paths.countP fun path => (treated path).reported?.isSome) := by
  rw [summary_eq, List.countP_map, List.countP_map]
  rfl

/-- Files are skipped for their paths. -/
theorem outcome_eq_skipped :
    (treat env c fresh request tree path).outcome = .skipped ↔
      Mime.isHtmlPath path.toText = false := by
  cases hhtml : Mime.isHtmlPath path.toText with
  | false =>
    rw [treat_of_notHtml hhtml]
    exact ⟨fun _ => rfl, fun _ => rfl⟩
  | true =>
    refine ⟨fun h => ?_, nofun⟩
    cases hdry : request.isDryRun with
    | true =>
      rw [treat_of_isDryRun hhtml hdry] at h
      cases h
    | false =>
      cases hread : readPage env.workingDirectory tree path with
      | error failure =>
        rw [treat_of_unread hhtml hdry hread] at h
        cases h
      | ok markup =>
        rcases hbuild : (build env c request markup path.toText).run.run ⟨fresh, []⟩ with
          ⟨failure | product, session⟩
        · rw [treat_of_unbuilt hhtml hdry hread hbuild] at h
          cases h
        · rcases hemit : emit env.workingDirectory request path tree product with
            ⟨emitted, failure | printed⟩
          · rw [treat_of_unemitted hhtml hdry hread hbuild hemit] at h
            cases h
          · rw [treat_of_emitted hhtml hdry hread hbuild hemit] at h
            cases h

/-- A file that does not end the run counts once: as skipped, as compiled or as failed. -/
theorem count_treat (hfault : (treat env c fresh request tree path).fault? = none) :
    (if (!Mime.isHtmlPath path.toText) = true then 1 else 0) +
      (if (treat env c fresh request tree path).isCompiled = true then 1 else 0) +
      (if (treat env c fresh request tree path).reported?.isSome = true then 1 else 0) = 1 := by
  have hskipped : (treat env c fresh request tree path).outcome = .skipped ↔
      Mime.isHtmlPath path.toText = false := outcome_eq_skipped
  cases houtcome : (treat env c fresh request tree path).outcome with
  | skipped =>
    rw [houtcome] at hskipped
    simp [Treatment.isCompiled, Treatment.reported?, houtcome, hskipped.1 rfl]
  | compiled =>
    have hhtml : Mime.isHtmlPath path.toText = true := by
      simpa [houtcome] using hskipped
    simp [Treatment.isCompiled, Treatment.reported?, houtcome, hhtml]
  | failed e =>
    have hhtml : Mime.isHtmlPath path.toText = true := by
      simpa [houtcome] using hskipped
    have hhandled : isHandled e = true := by
      simpa [Treatment.fault?, houtcome] using hfault
    simp [Treatment.isCompiled, Treatment.reported?, houtcome, hhtml, hhandled]

theorem countP_treat {paths : List Path}
    (hfaults : ∀ path ∈ paths, (treat env c fresh request tree path).fault? = none) :
    (paths.countP fun path => !Mime.isHtmlPath path.toText) +
      (paths.countP fun path => (treat env c fresh request tree path).isCompiled) +
      (paths.countP fun path => (treat env c fresh request tree path).reported?.isSome) =
        paths.length := by
  induction paths with
  | nil => rfl
  | cons path rest ih =>
    obtain ⟨hfault, hrest⟩ := List.forall_mem_cons.1 hfaults
    have hone := count_treat hfault
    have hothers := ih hrest
    rw [List.countP_cons, List.countP_cons, List.countP_cons, List.length_cons]
    omega

-- ---------------------------------------------------------------------------
-- Main statement
-- ---------------------------------------------------------------------------

theorem firstFault_congr {α : Type} {fails fails' : α → Failure → Prop}
    (h : ∀ a failure, fails a failure ↔ fails' a failure) {l : List α} {failure : Failure} :
    Page.FirstFault fails l failure ↔ Page.FirstFault fails' l failure := by
  have heq : fails = fails' := funext fun a => funext fun failure => propext (h a failure)
  rw [heq]

/-- With the compilers that a site has by default, and rules that fit, a run that prints what it makes
of pages leaves the file tree as it was. It ends early just at the first file whose path holds a NUL
character or whose page is broken. Until then each file is treated, in order, as it would be alone,
and if the run comes to its end, the summary counts what came of the files, each of which is skipped,
compiled or reported. What comes of a file depends on no other content of the tree than its own. -/
theorem run_isolated {rules : RegionRules} {tag : Text} (hfits : Region.Fits rules)
    (htag : rules.resourceTag = .fit tag)
    (hdirectory : ∀ segment ∈ env.workingDirectory.segments, '\x00' ∉ segment)
    (hprints : request.Prints) (fresh : σ) (tree : FileTree) :
    let paths := request.paths.map Path.ofText
    let alone := treat env ⟨Page.defaultLookup σ, rules⟩ fresh request tree
    let skipped := paths.countP fun path => !Mime.isHtmlPath path.toText
    let compiled := paths.countP fun path => (alone path).isCompiled
    let errors := paths.countP fun path => (alone path).reported?.isSome
    let report := run env ⟨Page.defaultLookup σ, rules⟩ fresh request tree
    report.tree = tree ∧
    (∀ failure, report.fault = some failure ↔
      Page.FirstFault (EndsRun env.workingDirectory tag request tree) paths failure) ∧
    (report.treatments <+: paths.map fun path => (path, alone path)) ∧
    (report.fault = none →
      (report.treatments = paths.map fun path => (path, alone path)) ∧
      report.printed =
        Text.line ("Compiling ".toList ++ Text.ofNat paths.length ++ " file(s)...".toList) ++
          (paths.flatMap fun path => (alone path).printed) ++ summaryLine request compiled errors ∧
      (report.complaints = paths.flatMap fun path => complaintOf path (alone path)) ∧
      (report.log = paths.flatMap fun path => logOf path (alone path)) ∧
      skipped + compiled + errors = paths.length) ∧
    ∀ tree' path, tree'.read env.workingDirectory path = tree.read env.workingDirectory path →
      treat env ⟨Page.defaultLookup σ, rules⟩ fresh request tree' path =
        { alone path with tree := tree' } := by
  intro paths alone skipped compiled errors report
  have hends : ∀ path failure, (alone path).fault? = some failure ↔
      EndsRun env.workingDirectory tag request tree path failure :=
    fault?_treat hfits htag hdirectory hprints fresh tree
  refine ⟨tree_run hprints, fun failure => ?_, treatAll_isPrefix hprints paths, fun hnone => ?_,
    fun tree' path => treat_congr hprints⟩
  · exact (findSome?_treatAll hprints paths failure).trans (firstFault_congr hends)
  · obtain ⟨hall, hfaults⟩ := treatAll_eq_map hprints hnone
    have hprinted : report.printed =
        Text.line ("Compiling ".toList ++ Text.ofNat paths.length ++ " file(s)...".toList) ++
          report.treatments.flatMap (·.2.printed) ++
          (if report.fault.isSome then [] else summary request report.treatments) := rfl
    have htreatments : report.treatments = paths.map fun path => (path, alone path) := hall
    have hcomplaints : report.complaints =
        report.treatments.flatMap fun treated => complaintOf treated.1 treated.2 := rfl
    have hlog : report.log =
        report.treatments.flatMap fun treated => logOf treated.1 treated.2 := rfl
    rw [htreatments] at hprinted hcomplaints hlog
    rw [hnone, summary_map, List.flatMap_map] at hprinted
    rw [List.flatMap_map] at hcomplaints hlog
    exact ⟨htreatments, hprinted, hcomplaints, hlog, countP_treat hfaults⟩

theorem run_isolated_mixed :
    let env : Environment Unit := ⟨⟨.root, []⟩, []⟩
    let c : PageCompiler Unit := .ofSettings (Catalog.find none) []
    let page (markup : String) : FileTree.Node := .file (Charset.Utf8.encode markup.toList)
    let tree : FileTree := ⟨[(["a.html".toList], page "<p>"),
      (["b.html".toList], page "<x-require src=../c>"),
      (["d.html".toList], page "<x-require src=\"http://[\">")]⟩
    let request : Request := { paths := ["c.txt".toList, "b.html".toList, "a.html".toList] }
    let ended : Request := { paths := ["d.html".toList, "a.html".toList] }
    (run env c () request tree).tree = tree ∧
    (run env c () request tree).printed =
      ("Compiling 3 file(s)...\n  Skipped (not HTML): c.txt\n<p>\n\n".toList ++
        "Done. Compiled: 1, Errors: 1\n".toList) ∧
    (run env c () request tree).complaints = "  ERROR: b.html\n".toList ∧
    (run env c () ended tree).fault = some (.url .badBrackets) ∧
    (run env c () ended tree).tree = tree := by
  intro env c page tree request ended
  have hfits : Region.Fits c.rules := Page.fits_rules_nil
  have hdirectory : ∀ segment ∈ env.workingDirectory.segments, '\x00' ∉ segment :=
    List.forall_mem_nil _
  obtain ⟨htree, -⟩ :=
    run_isolated hfits rfl hdirectory (show request.Prints from .inl rfl) () tree
  obtain ⟨htree', hfault', -⟩ :=
    run_isolated hfits rfl hdirectory (show ended.Prints from .inl rfl) () tree
  refine ⟨htree, by decide +kernel, by decide +kernel, ?_, htree'⟩
  have hpage : ((readPage env.workingDirectory tree (Path.ofText "d.html".toList)).toOption.bind
      fun markup => (Html.Document.parse markup).toOption.map
        (Page.resourceReferences "x-require".toList)) = some ["http://[".toList] := by
    decide +kernel
  obtain ⟨markup, hread, hparse⟩ := Option.bind_eq_some_iff.1 hpage
  obtain ⟨d, hparse, hreferences⟩ := Option.map_eq_some_iff.1 hparse
  have hdots : ¬ Page.HasDots "http://[".toList := by
    unfold Page.HasDots
    decide
  have hrooted : ¬ Page.IsRooted "http://[".toList := by
    unfold Page.IsRooted
    decide
  refine (hfault' _).2 (.here ⟨by decide +kernel, rfl, .inr ⟨markup, d,
    Html.eq_ok_of_toOption hread, Html.eq_ok_of_toOption hparse, .resource rfl ?_⟩⟩)
  rw [hreferences]
  exact .here (.address hdots hrooted rfl)

end PageSplice.Batch

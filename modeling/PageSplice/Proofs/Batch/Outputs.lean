-- SUMMARY: Outputs: what stands in the output directory after a run, and which inputs are kept.
import PageSplice.Proofs.Batch.Treatment

/-!
# Outputs of a run

A page is written under the name of its file alone, whatever directory the file
is in. So the outputs of a run are as many as the different names of the files
that were compiled: of the files with one name the last one's page is there,
and the pages of the others are gone, though all of them were reported as
compiled. Inputs that lie outside of the output directory are kept.
-/

namespace PageSplice.Batch

open FileTree

variable {σ : Type} {env : Environment σ} {c : PageCompiler σ} {fresh : σ} {request : Request}
  {cwd : Path} {tree : FileTree} {path : Path} {directory : Text}

-- ---------------------------------------------------------------------------
-- One file
-- ---------------------------------------------------------------------------

def IsFile (tree : FileTree) (place : List Text) (content : Bytes) : Prop :=
  tree.node? place = some (.file content)

/-- Whether the page of the file at `path` as it is in `tree` stands in the output directory of
`tree'`. -/
def IsOutput (env : Environment σ) (c : PageCompiler σ) (fresh : σ) (directory : Text)
    (tree tree' : FileTree) (path : Path) : Prop :=
  ∃ content out, IsFile tree (placeOf env.workingDirectory path) content ∧
    Makes env c fresh path content out ∧
    IsFile tree' (placeFor env.workingDirectory directory path) (Charset.Utf8.encode out.code)

theorem placeFor_inj {path' : Path} :
    placeFor cwd directory path = placeFor cwd directory path' ↔ path.name = path'.name := by
  simp [placeFor]

theorem ne_placeFor {place : List Text}
    (h : place.dropLast ≠ placeOf cwd (Path.ofText directory)) (path : Path) :
    place ≠ placeFor cwd directory path := by
  rintro rfl
  exact h List.dropLast_concat

section Step

variable (hwrites : request.WritesTo directory)
  (hfinds : request.isSuspended = true → Page.FindsCompilers c.lookup)

include hwrites hfinds

/-- A treatment changes no file but the one that it writes, if it writes one. -/
theorem isFile_treat (fresh : σ) {place : List Text}
    (hplace : (treat env c fresh request tree path).isCompiled = true →
      place ≠ placeFor env.workingDirectory directory path) (content : Bytes) :
    IsFile (treat env c fresh request tree path).tree place content ↔ IsFile tree place content := by
  rcases treat_cases hwrites hfinds fresh tree path with
    ⟨-, hmakes⟩ | ⟨hcompiled, hname, content, out, made, -, -, hmakes, hwrite⟩
  · exact hmakes.file_iff
  · obtain ⟨hnode, hput⟩ := eq_put_of_write hname hwrite
    rw [hput, IsFile, node?_put (ne_nil_of_node? hnode), if_neg (hplace hcompiled)]
    exact hmakes.file_iff

/-- A file that is compiled was there, and its page is in the output directory. -/
theorem isOutput_treat (hcompiled : (treat env c fresh request tree path).isCompiled = true) :
    IsOutput env c fresh directory tree (treat env c fresh request tree path).tree path := by
  rcases treat_cases hwrites hfinds fresh tree path with
    ⟨hnot, -⟩ | ⟨-, hname, content, out, made, hread, hmakes, -, hwrite⟩
  · cases hnot.symm.trans hcompiled
  · obtain ⟨place, hlocate, hfile⟩ := read_eq_ok.1 hread
    obtain ⟨rfl, -, -⟩ := locate_eq_ok hlocate
    obtain ⟨hnode, hput⟩ := eq_put_of_write hname hwrite
    refine ⟨content, out, hfile, hmakes, ?_⟩
    rw [hput, IsFile, node?_put (ne_nil_of_node? hnode), if_pos rfl]

end Step

-- ---------------------------------------------------------------------------
-- All files
-- ---------------------------------------------------------------------------

def compiledOf (treatments : List (Path × Treatment σ)) : List Path :=
  (treatments.filter (·.2.isCompiled)).map (·.1)

/-- The file tree that is left behind, where `tree` was there before. -/
def treeAfter (tree : FileTree) (treatments : List (Path × Treatment σ)) : FileTree :=
  (treatments.getLast?.map (·.2.tree)).getD tree

theorem treeAfter_cons (path : Path) (t : Treatment σ) (rest : List (Path × Treatment σ)) :
    treeAfter tree ((path, t) :: rest) = treeAfter t.tree rest := by
  unfold treeAfter
  rw [List.getLast?_cons]
  cases rest.getLast? <;> rfl

theorem compiledOf_cons (path : Path) (t : Treatment σ) (rest : List (Path × Treatment σ)) :
    compiledOf ((path, t) :: rest) =
      if t.isCompiled then path :: compiledOf rest else compiledOf rest := by
  unfold compiledOf
  rw [List.filter_cons]
  split <;> rfl

/-- A sequence of treatments, each of which begins with the file tree that the one before has left. -/
inductive Successive (env : Environment σ) (c : PageCompiler σ) (fresh : σ) (request : Request) :
    FileTree → List (Path × Treatment σ) → Prop
  | nil (tree : FileTree) : Successive env c fresh request tree []
  | cons {tree : FileTree} {path : Path} {rest : List (Path × Treatment σ)}
      (hrest : Successive env c fresh request (treat env c fresh request tree path).tree rest) :
      Successive env c fresh request tree ((path, treat env c fresh request tree path) :: rest)

theorem successive_treatAll (tree : FileTree) (paths : List Path) :
    Successive env c fresh request tree (treatAll env c fresh request tree paths) := by
  induction paths generalizing tree with
  | nil => exact .nil tree
  | cons path rest ih =>
    rw [treatAll]
    refine .cons ?_
    split
    · exact .nil _
    · exact ih _

theorem fst_treatAll_isPrefix (tree : FileTree) (paths : List Path) :
    (treatAll env c fresh request tree paths).map (·.1) <+: paths := by
  induction paths generalizing tree with
  | nil => exact List.prefix_refl _
  | cons path rest ih =>
    rw [treatAll, List.map_cons]
    refine (List.prefix_cons_inj _).2 ?_
    split
    · exact List.nil_prefix
    · exact ih _

theorem mem_of_mem_compiledOf {treatments : List (Path × Treatment σ)}
    (h : path ∈ compiledOf treatments) : path ∈ treatments.map (·.1) :=
  (List.filter_sublist.map _).subset h

section Runs

variable (hwrites : request.WritesTo directory)
  (hfinds : request.isSuspended = true → Page.FindsCompilers c.lookup)
  {treatments : List (Path × Treatment σ)}

include hwrites hfinds

/-- A run changes no files but those that it writes. -/
theorem Successive.isFile (h : Successive env c fresh request tree treatments) {place : List Text}
    (hplace : ∀ path ∈ compiledOf treatments,
      place ≠ placeFor env.workingDirectory directory path) (content : Bytes) :
    IsFile (treeAfter tree treatments) place content ↔ IsFile tree place content := by
  induction h with
  | nil tree => exact Iff.rfl
  | @cons tree path rest hrest ih =>
    rw [compiledOf_cons] at hplace
    have hlater : ∀ path ∈ compiledOf rest,
        place ≠ placeFor env.workingDirectory directory path := by
      intro later hlater
      refine hplace later ?_
      split
      · exact List.mem_cons_of_mem _ hlater
      · exact hlater
    rw [treeAfter_cons]
    refine (ih hlater).trans (isFile_treat hwrites hfinds fresh (fun hcompiled => ?_) content)
    rw [if_pos hcompiled] at hplace
    exact hplace path List.mem_cons_self

/-- Of the files with one name that are compiled, the last one has its page in the output directory
in the end. -/
theorem Successive.isOutput (h : Successive env c fresh request tree treatments)
    (houtside : ∀ path ∈ treatments.map (·.1),
      (placeOf env.workingDirectory path).dropLast ≠
        placeOf env.workingDirectory (Path.ofText directory))
    {front back : List Path} (hsplit : compiledOf treatments = front ++ path :: back)
    (hlast : ∀ later ∈ back, later.name ≠ path.name) :
    IsOutput env c fresh directory tree (treeAfter tree treatments) path := by
  induction h generalizing front with
  | nil tree => simp [compiledOf] at hsplit
  | @cons tree first rest hrest ih =>
    rw [List.map_cons, List.forall_mem_cons] at houtside
    rw [treeAfter_cons]
    -- A file that is compiled later on is still as it was before this treatment.
    have hlater {front : List Path} (hsplit : compiledOf rest = front ++ path :: back) :
        IsOutput env c fresh directory tree
          (treeAfter (treat env c fresh request tree first).tree rest) path := by
      obtain ⟨content, out, hfile, hmakes, houtput⟩ := ih houtside.2 hsplit
      have hmem : path ∈ compiledOf rest :=
        hsplit ▸ List.mem_append_right front List.mem_cons_self
      have hout := houtside.2 path (mem_of_mem_compiledOf hmem)
      refine ⟨content, out, ?_, hmakes, houtput⟩
      exact (isFile_treat hwrites hfinds fresh (fun _ => ne_placeFor hout first) content).1 hfile
    rw [compiledOf_cons] at hsplit
    split at hsplit
    · rename_i hcompiled
      cases front with
      | nil =>
        obtain ⟨rfl, rfl⟩ := List.cons_eq_cons.1 hsplit
        obtain ⟨content, out, hfile, hmakes, houtput⟩ := isOutput_treat hwrites hfinds hcompiled
        refine ⟨content, out, hfile, hmakes, ?_⟩
        refine (hrest.isFile hwrites hfinds (fun later hmem heq => ?_) _).2 houtput
        exact hlast later hmem (placeFor_inj.1 heq).symm
      | cons _ front => exact hlater (List.cons_eq_cons.1 hsplit).2
    · exact hlater hsplit

end Runs

theorem nodup_placeFor {paths : List Path} :
    (paths.map (placeFor cwd directory)).Nodup ↔ (paths.map Path.name).Nodup := by
  simp only [List.Nodup, List.pairwise_map, ne_eq, placeFor_inj]

-- ---------------------------------------------------------------------------
-- Main statement
-- ---------------------------------------------------------------------------

/-- After a run that compiles pages into a directory in which none of its files lies, all of these are
as they were. The summary counts the files that were compiled. Of those with one name, the page of the
last one stands under that name in the directory. So there are as many outputs as files that were
compiled just where no two of these have the same name, and then each output is the page that is made
of its file, as that was before the run. -/
theorem outputs_of_run (hwrites : request.WritesTo directory)
    (hfinds : request.isSuspended = true → Page.FindsCompilers c.lookup)
    (houtside : ∀ path ∈ request.paths.map Path.ofText,
      (placeOf env.workingDirectory path).dropLast ≠
        placeOf env.workingDirectory (Path.ofText directory)) (fresh : σ) (tree : FileTree) :
    let paths := request.paths.map Path.ofText
    let report := run env c fresh request tree
    let compiled := compiledOf report.treatments
    (∀ path ∈ paths, ∀ content, IsFile report.tree (placeOf env.workingDirectory path) content ↔
      IsFile tree (placeOf env.workingDirectory path) content) ∧
    compiled.Sublist paths ∧
    (report.fault = none →
      ∃ front errors, report.printed = front ++ summaryLine request compiled.length errors) ∧
    (∀ front path back, compiled = front ++ path :: back →
      (∀ later ∈ back, later.name ≠ path.name) →
      IsOutput env c fresh directory tree report.tree path) ∧
    ((compiled.map (placeFor env.workingDirectory directory)).Nodup ↔
      (compiled.map Path.name).Nodup) ∧
    ((compiled.map Path.name).Nodup →
      ∀ path ∈ compiled, IsOutput env c fresh directory tree report.tree path) := by
  intro paths report compiled
  have hrun : Successive env c fresh request tree report.treatments :=
    successive_treatAll tree paths
  have hinitial : report.treatments.map (·.1) <+: paths := fst_treatAll_isPrefix tree paths
  have hlast (front : List Path) (path : Path) (back : List Path)
      (hsplit : compiled = front ++ path :: back) (hlater : ∀ later ∈ back, later.name ≠ path.name) :
      IsOutput env c fresh directory tree report.tree path :=
    hrun.isOutput hwrites hfinds (fun path hpath => houtside path (hinitial.subset hpath)) hsplit
      hlater
  refine ⟨fun path hpath => ?_, (List.filter_sublist.map _).trans hinitial.sublist, fun hnone => ?_,
    hlast, nodup_placeFor, fun hnames path hpath => ?_⟩
  · exact hrun.isFile hwrites hfinds fun other _ => ne_placeFor (houtside path hpath) other
  · have hprinted : report.printed =
        Text.line ("Compiling ".toList ++ Text.ofNat paths.length ++ " file(s)...".toList) ++
          report.treatments.flatMap (·.2.printed) ++
          (if report.fault.isSome then [] else summary request report.treatments) := rfl
    have hlength : compiled.length = report.treatments.countP (·.2.isCompiled) := by
      rw [List.countP_eq_length_filter]
      exact List.length_map _
    rw [hnone, summary_eq, ← hlength] at hprinted
    exact ⟨_, _, hprinted⟩
  · obtain ⟨front, back, hsplit⟩ := List.append_of_mem hpath
    rw [hsplit, List.map_append, List.map_cons] at hnames
    have hnot := (List.nodup_cons.1 (List.nodup_append.1 hnames).2.1).1
    exact hlast front path back hsplit fun later hlater heq =>
      hnot (heq ▸ List.mem_map_of_mem hlater)

theorem outputs_of_run_two :
    let env : Environment Unit := ⟨⟨.root, []⟩, []⟩
    let c : PageCompiler Unit := .ofSettings (Catalog.find none) []
    let page (markup : String) : FileTree.Node := .file (Charset.Utf8.encode markup.toList)
    let tree : FileTree := ⟨[(["a".toList], .directory), (["b".toList], .directory),
      (["a".toList, "x.html".toList], page "<p>"), (["b".toList, "y.html".toList], page "<b>")]⟩
    let request : Request := { paths := ["a/x.html".toList, "b/y.html".toList],
                               outputDirectory := some "out".toList }
    let paths := [Path.ofText "a/x.html".toList, Path.ofText "b/y.html".toList]
    let report := run env c () request tree
    request.WritesTo "out".toList ∧ compiledOf report.treatments = paths ∧
    (∀ path ∈ paths, (placeOf env.workingDirectory path).dropLast ≠
      placeOf env.workingDirectory (Path.ofText "out".toList)) ∧
    (paths.map Path.name).Nodup ∧
    (∀ path ∈ paths, IsOutput env c () "out".toList tree report.tree path) ∧
    (paths.map (placeFor env.workingDirectory "out".toList)).Nodup := by
  intro env c page tree request paths report
  have hwrites : request.WritesTo "out".toList := ⟨rfl, by decide, rfl, rfl⟩
  have houtside : ∀ path ∈ paths, (placeOf env.workingDirectory path).dropLast ≠
      placeOf env.workingDirectory (Path.ofText "out".toList) := by decide +kernel
  have hcompiled : compiledOf report.treatments = paths := by decide +kernel
  have hnames : (paths.map Path.name).Nodup := by decide +kernel
  obtain ⟨-, -, -, -, hplaces, houtputs⟩ :=
    @outputs_of_run _ env c _ _ hwrites nofun houtside () tree
  rw [hcompiled] at hplaces houtputs
  exact ⟨hwrites, hcompiled, houtside, hnames, houtputs hnames, hplaces.2 hnames⟩

/-- Of two files with one name, both are compiled, and one page is left. -/
example :
    let page (markup : String) : FileTree.Node := .file (Charset.Utf8.encode markup.toList)
    let tree : FileTree := ⟨[(["a".toList], .directory), (["b".toList], .directory),
      (["a".toList, "x.html".toList], page "<p>"), (["b".toList, "x.html".toList], page "<b>")]⟩
    let report := run (σ := Unit) ⟨⟨.root, []⟩, []⟩ (.ofSettings (Catalog.find none) []) ()
      { paths := ["a/x.html".toList, "b/x.html".toList], outputDirectory := some "out".toList } tree
    (compiledOf report.treatments).length = 2 ∧
    report.tree.node? ["out".toList, "x.html".toList] = some (page "<b>") := by
  decide +kernel

end PageSplice.Batch

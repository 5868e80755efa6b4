-- SUMMARY: The treatment of one file, step by step: what is read, what is built of it, and what is written.
import PageSplice.Batch.Run
import PageSplice.Proofs.FileTree
import PageSplice.Proofs.Page.Driving
import PageSplice.Proofs.Server.Containment

/-!
# The treatment of a file

A file is read, something is built of its text, and that is printed or written.
Each step may be the last one. What can go wrong when a file is read or written
is reported, but for one thing: a NUL character in a path, with which no system
call is made.
-/

namespace PageSplice

-- ---------------------------------------------------------------------------
-- NUL characters
-- ---------------------------------------------------------------------------

namespace Path

/-- Whether no file can have the path, as a name in it holds a NUL character. -/
def HoldsNul (p : Path) : Prop := ∃ segment ∈ p.segments, '\x00' ∈ segment

theorem holdsNul_ofText {s : Text} : (ofText s).HoldsNul ↔ '\x00' ∈ s :=
  exists_mem_ofText (by decide) (by decide) s

theorem exists_mem_of_joinWith {c : Char} {segments : List Text} (hc : c ≠ '/')
    (h : c ∈ Text.joinWith ['/'] segments) : ∃ segment ∈ segments, c ∈ segment := by
  induction segments with
  | nil => cases h
  | cons first rest ih =>
    cases rest with
    | nil => exact ⟨first, List.mem_cons_self, by simpa [Text.joinWith, List.intercalate] using h⟩
    | cons second rest =>
      rw [Text.joinWith_cons_cons, List.mem_append, List.mem_append, List.mem_singleton] at h
      rcases h with (hfirst | hslash) | hrest
      · exact ⟨first, List.mem_cons_self, hfirst⟩
      · exact absurd hslash hc
      · obtain ⟨segment, hsegment, hmem⟩ := ih hrest
        exact ⟨segment, List.mem_cons_of_mem _ hsegment, hmem⟩

theorem holdsNul_of_toText {p : Path} (h : '\x00' ∈ p.toText) : p.HoldsNul := by
  unfold toText at h
  split at h
  · exact absurd h (by decide)
  · rcases List.mem_append.1 h with hanchor | hsegments
    · exact absurd hanchor (by cases p.anchor <;> decide)
    · exact exists_mem_of_joinWith (by decide) hsegments

/-- The directory of a document holds no NUL character where neither its path nor the working
directory does. -/
theorem not_mem_directoryOf {workingDirectory p : Path}
    (hdirectory : ∀ segment ∈ workingDirectory.segments, '\x00' ∉ segment) (hp : ¬ p.HoldsNul) :
    ∀ segment ∈ (directoryOf workingDirectory p.toText).segments, '\x00' ∉ segment := by
  intro segment hsegment hnul
  rcases mem_directoryOf hsegment with hsegment | hsegment
  · exact hdirectory segment hsegment hnul
  · exact hp (holdsNul_of_toText (holdsNul_ofText.1 ⟨segment, hsegment, hnul⟩))

/-- The path of an HTML document has a name. -/
theorem segments_ne_nil_of_isHtmlPath {p : Path} (h : Mime.isHtmlPath p.toText = true) :
    p.segments ≠ [] := by
  intro hnil
  have hdots : ∀ c ∈ p.toText, c = '/' ∨ c = '.' := by
    intro c hc
    unfold toText at hc
    rw [hnil] at hc
    cases hanchor : p.anchor <;> rw [hanchor] at hc <;>
      simp_all [Anchor.toText, Text.joinWith, List.intercalate]
  rw [Mime.isHtmlPath_of_dots hdots] at h
  cases h

end Path

namespace Batch

open Build FileTree

variable {σ : Type} {env : Environment σ} {c : PageCompiler σ} {fresh : σ} {request : Request}
  {cwd : Path} {tree tree' : FileTree} {path : Path} {directory : Text}

theorem checkPath_of_holdsNul {p : Path} (h : p.HoldsNul) : checkPath p = .error .nulInPath := by
  rw [checkPath, if_pos]
  simpa [Path.HoldsNul] using h

theorem checkPath_of_not_holdsNul {p : Path} (h : ¬ p.HoldsNul) : checkPath p = .ok () := by
  rw [checkPath, if_neg]
  simpa [Path.HoldsNul] using h

-- ---------------------------------------------------------------------------
-- Reading
-- ---------------------------------------------------------------------------

section Reading

variable (hpath : ¬ path.HoldsNul)

include hpath

theorem readPage_of_unread {e : FileError} (hread : tree.read cwd path = .error e) :
    readPage cwd tree path = .error (.file e) := by
  rw [readPage, checkPath_of_not_holdsNul hpath, hread]
  rfl

variable {content : Bytes} (hread : tree.read cwd path = .ok content)

include hread

theorem readPage_of_read :
    readPage cwd tree path =
      ((Charset.utf8.decode content).mapError Failure.undecodable).map Text.unifyNewlines := by
  rw [readPage, checkPath_of_not_holdsNul hpath, hread]
  change ((Charset.utf8.decode content).mapError Failure.undecodable >>= fun text =>
    .ok (Text.unifyNewlines text)) = _
  cases Charset.utf8.decode content <;> rfl

theorem readPage_of_undecodable {e : Charset.DecodeError}
    (hdecode : Charset.utf8.decode content = .error e) :
    readPage cwd tree path = .error (.undecodable e) := by
  rw [readPage_of_read hpath hread, hdecode]
  rfl

theorem readPage_of_decode {text : Text} (hdecode : Charset.utf8.decode content = .ok text) :
    readPage cwd tree path = .ok (Text.unifyNewlines text) := by
  rw [readPage_of_read hpath hread, hdecode]
  rfl

end Reading

theorem readPage_of_holdsNul (h : path.HoldsNul) :
    readPage cwd tree path = .error .nulInPath := by
  rw [readPage, checkPath_of_holdsNul h]
  rfl

/-- The text of a file is what its bytes are in UTF-8, with a line feed for each line end. -/
theorem readPage_eq_ok {markup : Text} :
    readPage cwd tree path = .ok markup ↔
      ¬ path.HoldsNul ∧ ∃ content text, tree.read cwd path = .ok content ∧
        Charset.utf8.decode content = .ok text ∧ markup = Text.unifyNewlines text := by
  constructor
  · intro h
    by_cases hnul : path.HoldsNul
    · cases h.symm.trans (readPage_of_holdsNul hnul)
    · cases hread : tree.read cwd path with
      | error e => cases h.symm.trans (readPage_of_unread hnul hread)
      | ok content =>
        cases hdecode : Charset.utf8.decode content with
        | error e => cases h.symm.trans (readPage_of_undecodable hnul hread hdecode)
        | ok text =>
          cases h.symm.trans (readPage_of_decode hnul hread hdecode)
          exact ⟨hnul, content, text, rfl, hdecode, rfl⟩
  · rintro ⟨hnul, content, text, hread, hdecode, rfl⟩
    exact readPage_of_decode hnul hread hdecode

/-- A file that cannot be read is reported, but for one whose path holds a NUL character. -/
theorem readPage_eq_error {failure : Failure} (hunhandled : isHandled failure = false) :
    readPage cwd tree path = .error failure ↔ path.HoldsNul ∧ failure = .nulInPath := by
  constructor
  · intro h
    by_cases hnul : path.HoldsNul
    · cases h.symm.trans (readPage_of_holdsNul hnul)
      exact ⟨hnul, rfl⟩
    · cases hread : tree.read cwd path with
      | error e =>
        cases h.symm.trans (readPage_of_unread hnul hread)
        cases hunhandled
      | ok content =>
        cases hdecode : Charset.utf8.decode content with
        | error e =>
          cases h.symm.trans (readPage_of_undecodable hnul hread hdecode)
          cases hunhandled
        | ok text => cases h.symm.trans (readPage_of_decode hnul hread hdecode)
  · rintro ⟨hnul, rfl⟩
    exact readPage_of_holdsNul hnul

-- ---------------------------------------------------------------------------
-- Building
-- ---------------------------------------------------------------------------

theorem run_build_of_lists (h : request.listsDependencies = true) (markup path : Text)
    (s : Session σ) :
    (build env c request markup path).run.run s =
      ((Page.dependencies env (.text markup) path).map .dependencies, s) := by
  rw [build, if_pos h, run_map, run_ofExcept]
  cases Page.dependencies env (.text markup) path <;> rfl

/-- Both ways to compile a page come to the same. -/
theorem build_of_compiles (h : request.listsDependencies = false)
    (hfinds : request.isSuspended = true → Page.FindsCompilers c.lookup) (markup path : Text) :
    build env c request markup path = (.page ·.code) <$> Page.compile env c markup path := by
  rw [build, if_neg (Bool.eq_false_iff.1 h)]
  split
  · rename_i hsuspended
    rw [Page.run_compileSuspended (hfinds hsuspended)]
  · rfl

-- ---------------------------------------------------------------------------
-- Writing
-- ---------------------------------------------------------------------------

def Request.Prints (request : Request) : Prop :=
  request.outputDirectory = none ∨ request.outputDirectory = some []

/-- What is printed of what was made of a page, where it is not written to a directory. -/
def Product.printed (path : Path) : Product → Text
  | .dependencies files => dependencyLines path files
  | .page markup => Text.line markup

theorem emit_of_prints (h : request.Prints) (product : Product) :
    emit cwd request path tree product = (tree, .ok (product.printed path)) := by
  cases product with
  | dependencies files => rfl
  | page markup => rcases h with h | h <;> simp only [emit, h] <;> rfl

structure Request.WritesTo (request : Request) (directory : Text) : Prop where
  outputDirectory : request.outputDirectory = some directory
  ne_nil : directory ≠ []
  isDryRun : request.isDryRun = false
  listsDependencies : request.listsDependencies = false

def targetOf (directory : Text) (path : Path) : Path :=
  FileTree.child (Path.ofText directory) path.name

def placeFor (cwd : Path) (directory : Text) (path : Path) : List Text :=
  placeOf cwd (Path.ofText directory) ++ [path.name]

theorem run_build_of_writesTo (h : request.WritesTo directory)
    (hfinds : request.isSuspended = true → Page.FindsCompilers c.lookup) (env : Environment σ)
    (markup path : Text) (s : Session σ) :
    (build env c request markup path).run.run s =
      (((Page.compile env c markup path).run.run s).1.map (.page ·.code),
        ((Page.compile env c markup path).run.run s).2) := by
  rw [build_of_compiles h.listsDependencies hfinds, run_map]

theorem emit_of_writesTo (h : request.WritesTo directory) (markup : Text) :
    emit cwd request path tree (.page markup) =
      match checkPath (Path.ofText directory) with
      | .error e => (tree, .error e)
      | .ok () =>
        match tree.makeDirectories cwd (Path.ofText directory) with
        | (tree, .error e) => (tree, .error (.file e))
        | (tree, .ok ()) =>
          match tree.write cwd (targetOf directory path) (Charset.Utf8.encode markup) with
          | .error e => (tree, .error (.file e))
          | .ok tree =>
            (tree, .ok (Text.line ("  Compiled: ".toList ++ path.toText ++ " -> ".toList ++
              (targetOf directory path).toText))) := by
  unfold emit
  simp only [h.outputDirectory]
  split
  · contradiction
  · rename_i hsome
    exact absurd (Option.some.inj hsome) h.ne_nil
  · rename_i other _ hsome
    cases hsome
    have hparent := parent_child (Path.ofText directory) path.name
    rw [child] at hparent
    rw [hparent]
    rfl

theorem emit_eq_ok (h : request.WritesTo directory) {markup printed : Text} :
    emit cwd request path tree (.page markup) = (tree', .ok printed) ↔
      ¬ (Path.ofText directory).HoldsNul ∧ ∃ made,
        tree.makeDirectories cwd (Path.ofText directory) = (made, .ok ()) ∧
        made.write cwd (targetOf directory path) (Charset.Utf8.encode markup) = .ok tree' ∧
        printed = Text.line ("  Compiled: ".toList ++ path.toText ++ " -> ".toList ++
          (targetOf directory path).toText) := by
  rw [emit_of_writesTo h]
  by_cases hnul : (Path.ofText directory).HoldsNul
  · simp [checkPath_of_holdsNul hnul, hnul]
  · rw [checkPath_of_not_holdsNul hnul]
    rcases hmake : tree.makeDirectories cwd (Path.ofText directory) with ⟨made, e | _⟩
    · simp
    · cases hwrite : made.write cwd (targetOf directory path) (Charset.Utf8.encode markup) with
      | error e => simp [hwrite]
      | ok written => simp [hwrite, hnul, eq_comm]

/-- A page that cannot be written leaves directories behind at most. -/
theorem emit_eq_error (h : request.WritesTo directory) {markup : Text} {failure : Failure}
    (hfails : emit cwd request path tree (.page markup) = (tree', .error failure)) :
    OnlyMakesDirectories tree tree' ∧
      (failure = .nulInPath ∧ (Path.ofText directory).HoldsNul ∨ ∃ e, failure = .file e) := by
  rw [emit_of_writesTo h] at hfails
  by_cases hnul : (Path.ofText directory).HoldsNul
  · rw [checkPath_of_holdsNul hnul] at hfails
    cases hfails
    exact ⟨.refl tree, .inl ⟨rfl, hnul⟩⟩
  · rw [checkPath_of_not_holdsNul hnul] at hfails
    rcases hmake : tree.makeDirectories cwd (Path.ofText directory) with ⟨made, e | _⟩
    · rw [hmake] at hfails
      cases hfails
      exact ⟨(makeDirectories_spec hmake).1, .inr ⟨_, rfl⟩⟩
    · simp only [hmake] at hfails
      split at hfails
      · cases hfails
        exact ⟨(makeDirectories_spec hmake).1, .inr ⟨_, rfl⟩⟩
      · cases hfails

-- ---------------------------------------------------------------------------
-- Treating
-- ---------------------------------------------------------------------------

theorem treat_of_notHtml (hhtml : Mime.isHtmlPath path.toText = false) :
    treat env c fresh request tree path =
      ⟨.skipped, Text.line ("  Skipped (not HTML): ".toList ++ path.toText), ⟨fresh, []⟩, tree⟩ := by
  simp only [treat, hhtml, Bool.not_false, if_true]

theorem treat_of_isDryRun (hhtml : Mime.isHtmlPath path.toText = true)
    (hdry : request.isDryRun = true) :
    treat env c fresh request tree path =
      ⟨.compiled, Text.line ("  [DRY RUN] Would compile: ".toList ++ path.toText), ⟨fresh, []⟩,
        tree⟩ := by
  simp only [treat, hhtml, hdry, Bool.not_true, Bool.false_eq_true, if_false, if_true]

section Built

variable (hhtml : Mime.isHtmlPath path.toText = true) (hdry : request.isDryRun = false)

include hhtml hdry

theorem treat_of_unread {failure : Failure}
    (hread : readPage env.workingDirectory tree path = .error failure) :
    treat env c fresh request tree path = ⟨.failed failure, [], ⟨fresh, []⟩, tree⟩ := by
  simp only [treat, hhtml, hdry, hread, Bool.not_true, Bool.false_eq_true, if_false]

theorem treat_of_unbuilt {markup : Text} {failure : Failure} {session : Session σ}
    (hread : readPage env.workingDirectory tree path = .ok markup)
    (hbuild : (build env c request markup path.toText).run.run ⟨fresh, []⟩ =
      (.error failure, session)) :
    treat env c fresh request tree path = ⟨.failed failure, [], session, tree⟩ := by
  simp only [treat, hhtml, hdry, hread, hbuild, Bool.not_true, Bool.false_eq_true, if_false]

theorem treat_of_unemitted {markup : Text} {product : Product} {session : Session σ}
    {failure : Failure} (hread : readPage env.workingDirectory tree path = .ok markup)
    (hbuild : (build env c request markup path.toText).run.run ⟨fresh, []⟩ =
      (.ok product, session))
    (hemit : emit env.workingDirectory request path tree product = (tree', .error failure)) :
    treat env c fresh request tree path = ⟨.failed failure, [], session, tree'⟩ := by
  simp only [treat, hhtml, hdry, hread, hbuild, hemit, Bool.not_true, Bool.false_eq_true, if_false]

theorem treat_of_emitted {markup printed : Text} {product : Product} {session : Session σ}
    (hread : readPage env.workingDirectory tree path = .ok markup)
    (hbuild : (build env c request markup path.toText).run.run ⟨fresh, []⟩ =
      (.ok product, session))
    (hemit : emit env.workingDirectory request path tree product = (tree', .ok printed)) :
    treat env c fresh request tree path = ⟨.compiled, printed, session, tree'⟩ := by
  simp only [treat, hhtml, hdry, hread, hbuild, hemit, Bool.not_true, Bool.false_eq_true, if_false]

end Built

-- ---------------------------------------------------------------------------
-- Compiling into a directory
-- ---------------------------------------------------------------------------

/-- Whether a compilation makes `out` of the page at `path`, a file with that content. -/
def Makes (env : Environment σ) (c : PageCompiler σ) (fresh : σ) (path : Path) (content : Bytes)
    (out : Output) : Prop :=
  ∃ text session, Charset.utf8.decode content = .ok text ∧
    (Page.compile env c (Text.unifyNewlines text) path.toText).Yields ⟨fresh, []⟩ out session

/-- The name of a file that is read does not go up. -/
theorem name_ne_of_isHtmlPath {content : Bytes} (hhtml : Mime.isHtmlPath path.toText = true)
    (hread : tree.read cwd path = .ok content) : path.name ≠ ['.', '.'] := by
  obtain ⟨front, last, hsegments⟩ :=
    (List.eq_nil_or_concat path.segments).resolve_left (Path.segments_ne_nil_of_isHtmlPath hhtml)
  have hname : path.name = last := by simp [Path.name, hsegments]
  have hlast : (cwd.join path).segments.getLast? = some last := by
    unfold Path.join
    split <;> simp [hsegments]
  rw [hname]
  exact fun heq => name_ne_of_read hread (hlast.trans (congrArg some heq))

/-- What is written to a directory takes the place of its name there. -/
theorem eq_put_of_write {content : Bytes} (hname : path.name ≠ ['.', '.'])
    (h : tree.write cwd (targetOf directory path) content = .ok tree') :
    tree.node? (placeFor cwd directory path) ≠ some .directory ∧
      tree' = tree.put (placeFor cwd directory path) (.file content) := by
  obtain ⟨place, hlocate, hnode, rfl⟩ := write_eq_ok.1 h
  obtain ⟨rfl, -, -⟩ := locate_eq_ok hlocate
  rw [targetOf, placeOf_child hname] at hnode ⊢
  exact ⟨hnode, rfl⟩

/-- All that a treatment can do where pages are compiled into a directory: either nothing is compiled,
and directories are made at most, or the file is a page, and what a compilation makes of it is written
under its name. -/
theorem treat_cases (hwrites : request.WritesTo directory)
    (hfinds : request.isSuspended = true → Page.FindsCompilers c.lookup) (fresh : σ)
    (tree : FileTree) (path : Path) :
    let t := treat env c fresh request tree path
    (t.isCompiled = false ∧ OnlyMakesDirectories tree t.tree) ∨
    (t.isCompiled = true ∧ path.name ≠ ['.', '.'] ∧ ∃ content out made,
      tree.read env.workingDirectory path = .ok content ∧ Makes env c fresh path content out ∧
      OnlyMakesDirectories tree made ∧
      made.write env.workingDirectory (targetOf directory path) (Charset.Utf8.encode out.code) =
        .ok t.tree) := by
  dsimp only
  cases hhtml : Mime.isHtmlPath path.toText with
  | false =>
    rw [treat_of_notHtml hhtml]
    exact .inl ⟨rfl, .refl tree⟩
  | true =>
    cases hread : readPage env.workingDirectory tree path with
    | error failure =>
      rw [treat_of_unread hhtml hwrites.isDryRun hread]
      exact .inl ⟨rfl, .refl tree⟩
    | ok markup =>
      have hbuild := run_build_of_writesTo hwrites hfinds env markup path.toText ⟨fresh, []⟩
      rcases hcompile : (Page.compile env c markup path.toText).run.run ⟨fresh, []⟩ with
        ⟨failure | out, session⟩
      · rw [hcompile] at hbuild
        rw [treat_of_unbuilt hhtml hwrites.isDryRun hread hbuild]
        exact .inl ⟨rfl, .refl tree⟩
      · rw [hcompile] at hbuild
        rcases hemit : emit env.workingDirectory request path tree (.page out.code) with
          ⟨emitted, failure | printed⟩
        · rw [treat_of_unemitted hhtml hwrites.isDryRun hread hbuild hemit]
          exact .inl ⟨rfl, (emit_eq_error hwrites hemit).1⟩
        · rw [treat_of_emitted hhtml hwrites.isDryRun hread hbuild hemit]
          obtain ⟨-, content, text, hcontent, hdecode, rfl⟩ := readPage_eq_ok.1 hread
          obtain ⟨-, made, hmake, hwrite, -⟩ := (emit_eq_ok hwrites).1 hemit
          exact .inr ⟨rfl, name_ne_of_isHtmlPath hhtml hcontent, content, out, made, hcontent,
            ⟨text, session, hdecode, hcompile⟩, (makeDirectories_spec hmake).1, hwrite⟩

-- ---------------------------------------------------------------------------
-- Summaries
-- ---------------------------------------------------------------------------

/-- The last line of a run in which that many pages were compiled and that many files failed. -/
def summaryLine (request : Request) (compiled errors : Nat) : Text :=
  let text := "\n".toList ++ (if request.isDryRun then "[DRY RUN] ".toList else []) ++
    "Done. Compiled: ".toList ++ Text.ofNat compiled ++ ", Errors: ".toList ++ Text.ofNat errors
  Text.line (if request.isColored then colored text else text)

theorem summary_eq (treatments : List (Path × Treatment σ)) :
    summary request treatments = summaryLine request (treatments.countP (·.2.isCompiled))
      (treatments.countP (·.2.reported?.isSome)) := rfl

end Batch

end PageSplice

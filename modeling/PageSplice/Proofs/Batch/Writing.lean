-- SUMMARY: Written pages: which bytes of a file its compiled page keeps, and when the page is written.
import PageSplice.Proofs.Batch.Treatment
import PageSplice.Proofs.Charset
import PageSplice.Proofs.Digest
import PageSplice.Proofs.Page.Frame

/-!
# Written pages

A page is read from bytes and written to bytes, and a compilation in between
replaces stretches of its text. Decoding and encoding lose nothing, so what is
kept of the text is kept byte by byte. What is lost is lost in front of the
compilation: every line end of the file becomes a line feed.
-/

namespace PageSplice

-- ---------------------------------------------------------------------------
-- Line ends
-- ---------------------------------------------------------------------------

namespace Text

theorem unifyNewlines_cons {c : Char} (hc : c ≠ '\r') (r : Text) :
    unifyNewlines (c :: r) = c :: unifyNewlines r := by
  rw [unifyNewlines]
  · exact fun _ heq => absurd heq hc
  · exact hc

theorem not_mem_unifyNewlines (s : Text) : '\r' ∉ unifyNewlines s := by
  induction s using unifyNewlines.induct with
  | case1 => exact List.not_mem_nil
  | case2 r ih => simpa [unifyNewlines] using ih
  | case3 r hr ih =>
    rw [unifyNewlines]
    · simpa using ih
    · exact hr
  | case4 c r hr hc ih =>
    rw [unifyNewlines_cons hc]
    simpa [Ne.symm hc] using ih

/-- Just the texts without carriage returns stay as they are. -/
theorem unifyNewlines_eq_self_iff {s : Text} : unifyNewlines s = s ↔ '\r' ∉ s := by
  refine ⟨fun h => h ▸ not_mem_unifyNewlines s, fun h => ?_⟩
  induction s with
  | nil => rfl
  | cons c r ih =>
    obtain ⟨hc, hr⟩ := not_or.1 (mt List.mem_cons.2 h)
    rw [unifyNewlines_cons (Ne.symm hc), ih hr]

end Text

namespace Batch

open Build FileTree
open Html.Document (Edit Rewrites)

variable {σ : Type} {env : Environment σ} {c : PageCompiler σ} {fresh : σ} {request : Request}
  {tree tree' : FileTree} {path : Path} {directory : Text}

-- ---------------------------------------------------------------------------
-- Bytes that are kept
-- ---------------------------------------------------------------------------

/-- Bytes that are kept, those replaced behind them, and what stands in their place. -/
structure Stretch where
  kept : Bytes
  old : Bytes
  new : Bytes

theorem encode_append (s t : Text) :
    Charset.Utf8.encode (s ++ t) = Charset.Utf8.encode s ++ Charset.Utf8.encode t :=
  List.flatMap_append

theorem slice_middle (front middle back : Text) :
    Text.slice (front ++ middle ++ back) front.length (front.length + middle.length) = middle := by
  rw [Text.slice, ← List.length_append, List.take_left, List.drop_left]

/-- Whether `new` are the bytes `old` of a text with the stretches of `edits` replaced and all others
kept. -/
def KeepsOthers (text : Text) (edits : List Edit) (old new : Bytes) : Prop :=
  ∃ (stretches : List Stretch) (rest : Bytes),
    old = stretches.flatMap (fun x => x.kept ++ x.old) ++ rest ∧
    new = stretches.flatMap (fun x => x.kept ++ x.new) ++ rest ∧
    stretches.map (fun x => (x.old, x.new)) = edits.map fun edit =>
      (Charset.Utf8.encode (Text.slice text edit.start edit.stop),
        Charset.Utf8.encode edit.replacement)

/-- What is kept of a text is kept of its bytes. -/
theorem keepsOthers_of_rewrites {i : Nat} {s t : Text} {edits : List Edit}
    (h : Rewrites i s edits t) (front : Text) (hfront : front.length = i) :
    KeepsOthers (front ++ s) edits (Charset.Utf8.encode s) (Charset.Utf8.encode t) := by
  induction h generalizing front with
  | rest i s => exact ⟨[], Charset.Utf8.encode s, rfl, rfl, rfl⟩
  | @edit i kept old replacement s t edits tail ih =>
    subst hfront
    obtain ⟨stretches, rest, hold, hnew, hedits⟩ :=
      ih (front ++ kept ++ old) (by simp only [List.length_append])
    refine ⟨⟨Charset.Utf8.encode kept, Charset.Utf8.encode old,
      Charset.Utf8.encode replacement⟩ :: stretches, rest, ?_, ?_, ?_⟩
    · simp only [encode_append, hold, List.flatMap_cons, List.append_assoc]
    · simp only [encode_append, hnew, List.flatMap_cons, List.append_assoc]
    · have hmiddle := slice_middle (front ++ kept) old s
      have hassoc : front ++ (kept ++ old ++ s) = front ++ kept ++ old ++ s := by
        simp only [List.append_assoc]
      rw [List.length_append] at hmiddle
      rw [List.map_cons, List.map_cons, hassoc, hmiddle, hedits]

theorem encode_of_decode_utf8 {content : Bytes} {text : Text}
    (h : Charset.utf8.decode content = .ok text) : Charset.Utf8.encode text = content := by
  refine Charset.Utf8.encode_of_decode ?_
  rw [Charset.decode] at h
  cases hdecode : Charset.Utf8.decode content with
  | error bad =>
    rw [hdecode] at h
    cases h
  | ok text' =>
    rw [hdecode] at h
    cases h
    rfl

-- ---------------------------------------------------------------------------
-- Main statement
-- ---------------------------------------------------------------------------

/-- Whether what a compilation replaces are start tags and bodies of elements. -/
def AreTagsAndBodies (d : Html.Document) (edits : List Edit) : Prop :=
  ∀ edit ∈ edits, ∃ (i : Nat) (e : Html.Element), d.elements[i]? = some e ∧
    (edit.start = e.start ∧ edit.stop = e.bodyStart ∨
      edit.start = e.bodyStart ∧ e.bodyEnd = some edit.stop)

theorem exists_edits_of_compile {markup path : Text} {s s' : Session σ} {out : Output}
    (h : (Page.compile env c markup path).Yields s out s') :
    ∃ d edits, Html.Document.parse markup = .ok d ∧ AreTagsAndBodies d edits ∧
      Rewrites 0 markup edits out.code := by
  obtain ⟨d, -, -, -, -, calls, hparse, -, -, -, -, hcode, -⟩ := Page.exists_calls_of_compile h
  refine ⟨d, d.editsAfter calls, hparse, fun edit hedit => ?_,
    hcode ▸ Html.Document.rewrites_serialize hparse calls⟩
  obtain ⟨i, e, he, ⟨-, hstart, hstop⟩ | ⟨-, hstart, hstop⟩⟩ :=
    Html.Document.exists_mem_editsAfter.1 ⟨edit.replacement, hedit⟩
  · exact ⟨i, e, he, .inl ⟨hstart, hstop⟩⟩
  · exact ⟨i, e, he, .inr ⟨hstart, hstop⟩⟩

/-- Where pages are compiled into a directory, and a file is a page that can be compiled once its line
ends are line feeds, what is written are the bytes of what the compilation makes of it. The page is
written where nothing is in the way; if it is not, the file has failed, and directories have been made
at most. Outside of the start tags and bodies that the compilation replaces, the bytes written are
those of the text with line feeds. These are the bytes of the file just where its text has no carriage
return, and only then the text that is compiled is that of the file. -/
theorem page_written (hwrites : request.WritesTo directory)
    (hfinds : request.isSuspended = true → Page.FindsCompilers c.lookup)
    (hhtml : Mime.isHtmlPath path.toText = true) (hpath : ¬ path.HoldsNul) {content : Bytes}
    {text : Text} (hread : tree.read env.workingDirectory path = .ok content)
    (hdecode : Charset.utf8.decode content = .ok text) {out : Output} {session : Session σ}
    (hcompile : (Page.compile env c (Text.unifyNewlines text) path.toText).Yields ⟨fresh, []⟩ out
      session) :
    let t := treat env c fresh request tree path
    let page := Text.unifyNewlines text
    let written := Charset.Utf8.encode out.code
    (t.isCompiled = true →
      t.tree.read env.workingDirectory (targetOf directory path) = .ok written) ∧
    (t.isCompiled = false →
      (∃ failure, t.outcome = .failed failure) ∧ OnlyMakesDirectories tree t.tree) ∧
    (¬ (Path.ofText directory).HoldsNul →
      tree.Admits env.workingDirectory (Path.ofText directory) path.name → t.isCompiled = true) ∧
    (∃ d edits, Html.Document.parse page = .ok d ∧ AreTagsAndBodies d edits ∧
      KeepsOthers page edits (Charset.Utf8.encode page) written) ∧
    (Charset.Utf8.encode page = content ↔ '\r' ∉ text) ∧ (page = text ↔ '\r' ∉ text) := by
  intro t page written
  have hpage : readPage env.workingDirectory tree path = .ok page :=
    readPage_eq_ok.2 ⟨hpath, content, text, hread, hdecode, rfl⟩
  have hbuild : (build env c request page path.toText).run.run ⟨fresh, []⟩ =
      (.ok (.page out.code), session) := by
    rw [run_build_of_writesTo hwrites hfinds, hcompile]
    rfl
  have hbytes : Charset.Utf8.encode page = content ↔ page = text := by
    rw [← encode_of_decode_utf8 hdecode]
    exact ⟨Charset.Utf8.encode_injective, congrArg _⟩
  obtain ⟨d, edits, hparse, hedits, hrewrites⟩ := exists_edits_of_compile hcompile
  have hframe : ∃ d edits, Html.Document.parse page = .ok d ∧ AreTagsAndBodies d edits ∧
      KeepsOthers page edits (Charset.Utf8.encode page) written :=
    ⟨d, edits, hparse, hedits, keepsOthers_of_rewrites hrewrites [] rfl⟩
  have hlines : (Charset.Utf8.encode page = content ↔ '\r' ∉ text) ∧ (page = text ↔ '\r' ∉ text) :=
    ⟨hbytes.trans Text.unifyNewlines_eq_self_iff, Text.unifyNewlines_eq_self_iff⟩
  rcases hemit : emit env.workingDirectory request path tree (.page out.code) with
    ⟨emitted, failure | printed⟩
  · have htreat : t = _ := treat_of_unemitted hhtml hwrites.isDryRun hpage hbuild hemit
    rw [htreat]
    refine ⟨nofun, fun _ => ⟨⟨failure, rfl⟩, (emit_eq_error hwrites hemit).1⟩,
      fun hnul hadmits => ?_, hframe, hlines⟩
    obtain ⟨made, hmade, tree', hwrite⟩ := hadmits.exists_write written
    cases hemit.symm.trans ((emit_eq_ok hwrites).2 ⟨hnul, made, hmade, hwrite, rfl⟩)
  · have htreat : t = _ := treat_of_emitted hhtml hwrites.isDryRun hpage hbuild hemit
    rw [htreat]
    obtain ⟨-, made, -, hwrite, -⟩ := (emit_eq_ok hwrites).1 hemit
    exact ⟨fun _ => read_of_write hwrite, nofun, fun _ _ => rfl, hframe, hlines⟩

theorem page_written_lineEnds :
    let env : Environment Unit := ⟨⟨.root, []⟩, []⟩
    let c : PageCompiler Unit := .ofSettings (Catalog.find none) []
    let text := "<p>\r\n<x-require src=b.js>".toList
    let content := Charset.Utf8.encode text
    let tree : FileTree := ⟨[(["a.html".toList], .file content)]⟩
    let request : Request := { paths := ["a.html".toList], outputDirectory := some "out".toList }
    let path := Path.ofText "a.html".toList
    let t := treat env c () request tree path
    request.WritesTo "out".toList ∧ tree.read env.workingDirectory path = .ok content ∧
    Charset.utf8.decode content = .ok text ∧ t.isCompiled = true ∧
    t.tree.read env.workingDirectory (Path.ofText "out/a.html".toList) =
      .ok (Charset.Utf8.encode "<p>\n<x-require src=\"/b.js\">".toList) ∧
    Charset.Utf8.encode (Text.unifyNewlines text) ≠ content := by
  intro env c text content tree request path t
  have hwrites : request.WritesTo "out".toList := ⟨rfl, by decide, rfl, rfl⟩
  have hpath : ¬ path.HoldsNul := fun h => absurd (Path.holdsNul_ofText.1 h) (by decide)
  have hread : tree.read env.workingDirectory path = .ok content :=
    Html.eq_ok_of_toOption (by decide +kernel)
  have hdecode : Charset.utf8.decode content = .ok text :=
    Charset.decode_of_encode (show Charset.utf8.encode text = .ok content from rfl)
  have hcode : ((Page.compile env c (Text.unifyNewlines text) path.toText).run.run
      ⟨(), []⟩).1.toOption.map Output.code = some "<p>\n<x-require src=\"/b.js\">".toList := by
    decide +kernel
  obtain ⟨out, session, hcompile, hcode⟩ := exists_yields hcode
  have hadmits : tree.Admits env.workingDirectory (Path.ofText "out".toList) path.name := by
    refine ⟨isOpen_nil tree, ?_, ?_, by decide +kernel, by decide +kernel⟩
    · exact List.forall_mem_cons.2 ⟨⟨by decide, by decide⟩,
        List.forall_mem_singleton.2 ⟨by decide, by decide⟩⟩
    · intro above habove
      rcases List.prefix_concat_iff.1 (habove : above <+: [] ++ ["out".toList]) with rfl | hnil
      · have hnone : tree.node? ["out".toList] = none := by decide +kernel
        exact fun content hfile => nomatch hnone.symm.trans hfile
      · rw [List.prefix_nil.1 hnil]
        exact nofun
  obtain ⟨hwritten, -, hdone, -, hlines, -⟩ :=
    page_written hwrites nofun (by decide +kernel) hpath hread hdecode hcompile
  have hcompiled : t.isCompiled = true :=
    hdone (fun h => absurd (Path.holdsNul_ofText.1 h) (by decide)) hadmits
  refine ⟨hwrites, hread, hdecode, hcompiled, ?_, fun heq => ?_⟩
  · rw [← hcode]
    exact hwritten hcompiled
  · exact absurd (hlines.1 heq) (by decide)

end Batch

end PageSplice

-- SUMMARY: The directory of a page: all the pages inside of it are in the same one, and are prepared as they would be in its place.
import PageSplice.Proofs.Page.Inner
import PageSplice.Proofs.Text

/-!
# Directories of pages

A page inside of a page goes by a path that was made up for it, and relative
references are taken from the directory of that path. The author of the page
has a say in the path, through the type of the region; but whatever the type,
the path goes on from the name of the page within its last segment. So the
directory is that of the page around it, and every reference becomes what it
would become there.
-/

namespace PageSplice

-- ---------------------------------------------------------------------------
-- Last segments
-- ---------------------------------------------------------------------------

namespace Path

/-- Whether the last segment of a written path is the name of a file: it is not empty, and no dots. -/
def EndsInName (path : Text) : Prop :=
  Text.afterLast '/' path ≠ [] ∧ Text.afterLast '/' path ≠ ['.'] ∧
    Text.afterLast '/' path ≠ ['.', '.']

instance (path : Text) : Decidable (EndsInName path) :=
  inferInstanceAs (Decidable (_ ∧ _))

theorem exists_splitOn_eq (c : Char) (s : Text) :
    ∃ pieces, Text.splitOn c s = pieces ++ [Text.afterLast c s] := by
  by_cases hc : c ∈ s
  · obtain ⟨front, back, rfl, hback⟩ := exists_append_last hc
    refine ⟨Text.splitOn c front, ?_⟩
    rw [afterLast_append hback, Text.splitOn, Text.splitBy_append_cons (by simp)]
    exact congrArg _ (Text.splitOn_of_not_mem hback)
  · refine ⟨[], ?_⟩
    rw [afterLast_of_not_mem hc, Text.splitOn_of_not_mem hc]
    rfl

/-- What goes on within the last segment of a path, with a colon, makes a name of the segment. -/
theorem endsInName_append {back : Text} (hslash : '/' ∉ back) (hname : ':' ∈ back) (path : Text) :
    EndsInName (path ++ back) := by
  have hmem : ':' ∈ Text.afterLast '/' (path ++ back) := by
    rw [afterLast_append_of_not_mem hslash]
    exact List.mem_append_right _ hname
  refine ⟨List.ne_nil_of_mem hmem, fun heq => ?_, fun heq => ?_⟩
  · exact absurd (heq ▸ hmem) (by decide)
  · exact absurd (heq ▸ hmem) (by decide)

/-- A written path that ends in a name leads to it through the segments in front of it. -/
theorem EndsInName.segments {path : Text} (h : EndsInName path) {pieces : List Text}
    (hsplit : Text.splitOn '/' path = pieces ++ [Text.afterLast '/' path]) :
    (ofText path).segments = pieces.filter isProper ++ [Text.afterLast '/' path] := by
  have hproper : isProper (Text.afterLast '/' path) = true := decide_eq_true ⟨h.1, h.2.1⟩
  rw [ofText, hsplit, List.filter_append, List.filter_singleton, hproper]
  rfl

/-- One segment up from a name is what stands in front of it. -/
theorem parent_collapse_join {p q : Path} {above : List Text} {name : Text}
    (hname : name ≠ ['.', '.']) (hq : q.segments = above ++ [name]) :
    (p.join q).collapse.parent = (p.join ⟨q.anchor, above⟩).collapse := by
  have hgeneral (anchor : Anchor) (above : List Text) :
      (⟨anchor, above ++ [name]⟩ : Path).collapse.parent = (⟨anchor, above⟩ : Path).collapse := by
    rw [collapse, parent, List.foldl_append, List.foldl_cons, List.foldl_nil, collapseStep,
      if_neg hname, List.reverse_cons, List.dropLast_concat]
    rfl
  obtain ⟨anchor, segments⟩ := q
  subst hq
  unfold join
  split
  · rw [← List.append_assoc]
    exact hgeneral _ _
  · exact hgeneral _ _

/-- What goes on within the last segment of a path that ends in a name is in the same directory. -/
theorem directoryOf_append {path back : Text} (h : EndsInName path) (hslash : '/' ∉ back)
    (hname : ':' ∈ back) (workingDirectory : Path) :
    directoryOf workingDirectory (path ++ back) = directoryOf workingDirectory path := by
  have hanchor := (exists_segments_of_append hslash hname path).1
  have hname' := endsInName_append hslash hname path
  obtain ⟨pieces, hsplit⟩ := exists_splitOn_eq '/' path
  obtain ⟨front, last, hpath, hboth⟩ := Text.exists_splitBy_append (p := fun c => c = '/')
    (fun c hc => decide_eq_false fun heq => hslash (heq ▸ hc)) path
  obtain ⟨rfl, hlast⟩ := List.append_inj' (hpath.symm.trans hsplit) rfl
  have hboth' : Text.splitOn '/' (path ++ back) = front ++ [Text.afterLast '/' (path ++ back)] := by
    rw [afterLast_append_of_not_mem hslash, ← List.head_eq_of_cons_eq hlast]
    exact hboth
  rw [directoryOf, directoryOf, absolute, absolute,
    parent_collapse_join hname'.2.2 (hname'.segments hboth'),
    parent_collapse_join h.2.2 (h.segments hsplit), hanchor]

end Path

-- ---------------------------------------------------------------------------
-- Paths of pages inside
-- ---------------------------------------------------------------------------

namespace Mime

/-- The path that is made up for a region of a region: `regions` are the numbers and types of the
regions on the way, the outermost first. -/
def identityWithin (path : Text) (regions : List (Int × Text)) : Text :=
  regions.foldl (fun path region => identity path region.1 region.2) path

theorem identityWithin_cons (path : Text) (region : Int × Text) (regions : List (Int × Text)) :
    identityWithin path (region :: regions) =
      identityWithin (identity path region.1 region.2) regions := rfl

theorem identityWithin_concat (path : Text) (regions : List (Int × Text)) (ordinal : Int)
    (type : Text) : identityWithin path (regions ++ [(ordinal, type)]) =
      identity (identityWithin path regions) ordinal type := List.foldl_concat ..

theorem endsInName_identityWithin {path : Text} (h : Path.EndsInName path)
    (regions : List (Int × Text)) : Path.EndsInName (identityWithin path regions) := by
  induction regions generalizing path with
  | nil => exact h
  | cons region regions ih =>
    obtain ⟨back, hidentity, hslash, hname⟩ := exists_identity_eq_append path region.1 region.2
    rw [identityWithin_cons, hidentity]
    exact ih (Path.endsInName_append hslash hname path)

theorem directoryOf_identityWithin {path : Text} (h : Path.EndsInName path) (workingDirectory : Path)
    (regions : List (Int × Text)) :
    Path.directoryOf workingDirectory (identityWithin path regions) =
      Path.directoryOf workingDirectory path := by
  induction regions generalizing path with
  | nil => rfl
  | cons region regions ih =>
    obtain ⟨back, hidentity, hslash, hname⟩ := exists_identity_eq_append path region.1 region.2
    rw [identityWithin_cons, hidentity, ih (Path.endsInName_append hslash hname path)]
    exact Path.directoryOf_append h hslash hname workingDirectory

end Mime

-- ---------------------------------------------------------------------------
-- Preparation in another place
-- ---------------------------------------------------------------------------

/-- A failure as it is reported about the document at another path. -/
def Failure.about (document : Text) : Failure → Failure
  | .traversal reference _ => .traversal reference document
  | failure => failure

namespace Page

open Build Html.Document

variable {σ : Type}

theorem canonical?_about (directory : Path) (path other reference : Text) :
    canonical? directory other reference =
      (canonical? directory path reference).mapError (.about other) := by
  unfold canonical?
  split
  · rfl
  · split
    · rfl
    · split <;> rfl

theorem canonicalize_about (directory : Path) (path other : Text) (d : Html.Document)
    (r : ResourceRegion) :
    canonicalize directory other d r =
      (canonicalize directory path d r).mapError (.about other) := by
  unfold canonicalize
  rw [canonical?_about directory path other]
  cases canonical? directory path (r.reference.getD []) <;> rfl

theorem foldlM_mapError {ε ε' α β : Type} {step : β → α → Except ε β} {step' : β → α → Except ε' β}
    {f : ε → ε'} (h : ∀ b a, step' b a = (step b a).mapError f) (l : List α) (b : β) :
    l.foldlM step' b = (l.foldlM step b).mapError f := by
  induction l generalizing b with
  | nil => rfl
  | cons a l ih =>
    rw [List.foldlM_cons, List.foldlM_cons, h]
    cases step b a with
    | error e => rfl
    | ok b => exact ih b

/-- A document is prepared alike at all paths of a directory, up to the path that a failure names. -/
theorem prepare_about {workingDirectory : Path} {path other : Text}
    (h : Path.directoryOf workingDirectory other = Path.directoryOf workingDirectory path)
    (rules : RegionRules) (markup : Text) :
    prepare workingDirectory rules markup other =
      (prepare workingDirectory rules markup path).mapError (.about other) := by
  unfold prepare
  split
  · rfl
  · split
    · rfl
    · rename_i d _ regions _
      simp only [h]
      rw [foldlM_mapError (canonicalize_about (Path.directoryOf workingDirectory path) path other)]
      cases (resourceRegions regions).foldlM
        (canonicalize (Path.directoryOf workingDirectory path) path) d <;> rfl

/-- What a compilation leaves at another path of the directory has the attributes of the document as it
is prepared here. -/
theorem Leaves.exists_prepared {env : Environment σ} {c : PageCompiler σ} {markup path other : Text}
    {turns : List (CodeRegion × Option Output)} {w : Html.Document}
    (hleaves : Leaves env c markup other turns w)
    (h : Path.directoryOf env.workingDirectory other = Path.directoryOf env.workingDirectory path) :
    ∃ page, prepare env.workingDirectory c.rules markup path = .ok page ∧
      ∀ (i : Nat) (e : Html.Element), page.document.elements[i]? = some e →
        ∃ e', w.elements[i]? = some e' ∧ ∀ name, e'.value? name = e.value? name := by
  obtain ⟨page, -, -, hprepare, -, -, rfl⟩ := hleaves
  have hhere : prepare env.workingDirectory c.rules markup path = .ok page := by
    rw [prepare_about h] at hprepare
    cases hpath : prepare env.workingDirectory c.rules markup path with
    | error failure =>
      rw [hpath] at hprepare
      cases hprepare
    | ok here =>
      rw [hpath] at hprepare
      exact hprepare
  refine ⟨page, hhere, fun i e he => ⟨_, by rw [getElem?_performAll, he]; rfl, fun name => ?_⟩⟩
  exact value?_actAll_spliceCalls ..

/-- The path of a page inside of a page is made up for a region of a region of it. -/
theorem Sheet.Within.exists_identityWithin {lookup : Lookup σ} {nested : RegionRules}
    {outer inner : Sheet} (h : Sheet.Within lookup nested outer inner) :
    ∃ regions, inner.path = Mime.identityWithin outer.path regions := by
  induction h with
  | refl => exact ⟨[], rfl⟩
  | tail _ hholds ih =>
    obtain ⟨regions, hpath⟩ := ih
    obtain ⟨d, _, r, type, name, -, -, -, -, -, -, -, rfl⟩ := hholds
    refine ⟨regions ++ [((r.ordinal : Int), typeOf r)], ?_⟩
    rw [Mime.identityWithin_concat, ← hpath]
    rfl

-- ---------------------------------------------------------------------------
-- Main statement
-- ---------------------------------------------------------------------------

/-- Whatever numbers and types the regions around it have, a region of a document whose path ends in a
name is in the directory of the document, and its path ends in a name as well. A reference in it
becomes what it becomes in the document, and all of its markup is prepared as it would be there; only
the failure that a reference with dots causes names the region. So what is written of a page inside of
the document has the attributes that it would have been given in the place of the document. -/
theorem directoryOf_within {path : Text} (hname : Path.EndsInName path) (workingDirectory : Path) :
    (∀ regions : List (Int × Text),
      let inner := Mime.identityWithin path regions
      let directory := Path.directoryOf workingDirectory path
      Path.EndsInName inner ∧ Path.directoryOf workingDirectory inner = directory ∧
      (∀ reference, canonical? (Path.directoryOf workingDirectory inner) inner reference =
        (canonical? directory path reference).mapError (.about inner)) ∧
      ∀ rules markup, prepare workingDirectory rules markup inner =
        (prepare workingDirectory rules markup path).mapError (.about inner)) ∧
    ∀ (settings : Settings σ) (c : PageCompiler σ) (markup : Text) (page : Sheet),
      Sheet.Within c.lookup settings.rules ⟨c.rules, markup, path⟩ page →
      (∃ regions, page.path = Mime.identityWithin path regions) ∧
      Path.directoryOf workingDirectory page.path = Path.directoryOf workingDirectory path ∧
      ∀ (s s' : Session σ) (out : Output),
        (compile ⟨workingDirectory, settings⟩ ⟨c.lookup, page.rules⟩ page.markup page.path).Yields
          s out s' →
        ∃ (prepared : Prepared page.markup) (w : Html.Document),
          prepare workingDirectory page.rules page.markup path = .ok prepared ∧
          out.code = w.serialize ∧
          ∀ (i : Nat) (e : Html.Element), prepared.document.elements[i]? = some e →
            ∃ e', w.elements[i]? = some e' ∧ ∀ name, e'.value? name = e.value? name := by
  constructor
  · intro regions inner directory
    have hdirectory := Mime.directoryOf_identityWithin hname workingDirectory regions
    refine ⟨Mime.endsInName_identityWithin hname regions, hdirectory, fun reference => ?_,
      prepare_about hdirectory⟩
    rw [hdirectory]
    exact canonical?_about directory path inner reference
  · intro settings c markup page hwithin
    obtain ⟨regions, hpath⟩ := hwithin.exists_identityWithin
    have hdirectory := Mime.directoryOf_identityWithin hname workingDirectory regions
    rw [← hpath] at hdirectory
    refine ⟨⟨regions, hpath⟩, hdirectory, fun s s' out hyields => ?_⟩
    obtain ⟨turns, w, hleaves, rfl⟩ := exists_leaves hyields
    obtain ⟨prepared, hprepared, hattributes⟩ := hleaves.exists_prepared hdirectory
    exact ⟨prepared, w, hprepared, rfl, hattributes⟩

theorem directoryOf_within_nested :
    let settings : Settings Unit := []
    let c : PageCompiler Unit := .ofSettings (Catalog.find none) settings
    let markup := "<script type=text/html><x-require src=b/c.js></script>".toList
    let path := "/e/../d/a.html".toList
    let inner := Mime.identityWithin path [(0, "text/html".toList), (-1, "x/../..".toList)]
    Path.EndsInName path ∧ Path.EndsInName inner ∧
    Path.directoryOf ⟨.root, []⟩ inner = ⟨.root, ["d".toList]⟩ ∧
    canonical? (Path.directoryOf ⟨.root, []⟩ inner) inner "b/c.js".toList =
      .ok (some "/d/b/c.js".toList) ∧
    ∃ (page : Sheet) (s' : Session Unit) (out : Output) (w : Html.Document) (e' : Html.Element),
      Sheet.Within c.lookup settings.rules ⟨c.rules, markup, path⟩ page ∧
      page.markup = "<x-require src=b/c.js>".toList ∧
      page.path = "/e/../d/a.html:inline_0.html".toList ∧
      Path.directoryOf ⟨.root, []⟩ page.path = ⟨.root, ["d".toList]⟩ ∧
      (compile ⟨⟨.root, []⟩, settings⟩ ⟨c.lookup, page.rules⟩ page.markup page.path).Yields
        ⟨(), []⟩ out s' ∧
      out.code = w.serialize ∧ w.elements[0]? = some e' ∧
      e'.value? "src".toList = some "/d/b/c.js".toList := by
  intro settings c markup path inner
  have hname : Path.EndsInName path := by decide
  have hdirectory : Path.directoryOf ⟨.root, []⟩ path = ⟨.root, ["d".toList]⟩ := by decide
  obtain ⟨hregions, hpages⟩ := directoryOf_within (σ := Unit) hname ⟨.root, []⟩
  obtain ⟨hnamed, hinner, hcanonical, -⟩ :=
    hregions [(0, "text/html".toList), (-1, "x/../..".toList)]
  refine ⟨hname, hnamed, hinner.trans hdirectory, ?_, ?_⟩
  · rw [hcanonical, hdirectory]
    rfl
  · let r : CodeRegion := ⟨.script, 0, 0, some "text/html".toList,
      some (.fit "text/javascript".toList), "<x-require src=b/c.js>".toList⟩
    let page : Sheet := ⟨settings.rules, r.content, identityOf path r⟩
    have hfound : ((Html.Document.parse markup).toOption.bind fun d =>
        (Region.ofDocument c.rules d).toOption) = some [.code r] := by decide +kernel
    obtain ⟨d, hparse, hfound⟩ := Option.bind_eq_some_iff.1 hfound
    have hwithin : Sheet.Within c.lookup settings.rules ⟨c.rules, markup, path⟩ page := by
      refine .single (Sheet.holds_of_isPage (Html.eq_ok_of_toOption hparse)
        (Html.eq_ok_of_toOption hfound) List.mem_cons_self rfl ?_)
      exact ⟨"text/html".toList, rfl, by decide⟩
    have hyields : ((compile ⟨⟨.root, []⟩, settings⟩ ⟨c.lookup, page.rules⟩ page.markup
        page.path).run.run ⟨(), []⟩).1.toOption.map (fun _ => ()) = some () := by decide +kernel
    obtain ⟨out, s', hyields, -⟩ := exists_yields hyields
    obtain ⟨-, hpage, hwritten⟩ := hpages settings c markup page hwithin
    obtain ⟨prepared, w, hprepared, hcode, hattributes⟩ := hwritten ⟨(), []⟩ s' out hyields
    have hsource : (prepare ⟨.root, []⟩ page.rules page.markup path).toOption.bind (fun prepared =>
        prepared.document.elements[0]?.map (·.value? "src".toList)) =
        some (some "/d/b/c.js".toList) := by decide +kernel
    rw [hprepared] at hsource
    obtain ⟨e, he, hvalue⟩ := Option.map_eq_some_iff.1 hsource
    obtain ⟨e', he', hsame⟩ := hattributes 0 e he
    exact ⟨page, s', out, w, e', hwithin, rfl, by decide +kernel, hpage.trans hdirectory, hyields,
      hcode, he', (hsame _).trans hvalue⟩

end Page

end PageSplice

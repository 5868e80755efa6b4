-- SUMMARY: The document root: which requests lead to documents below it, and that resources of such documents are there too.
import Mathlib.Data.List.TakeWhile
import PageSplice.Proofs.Page.Elements
import PageSplice.Proofs.Page.Inner
import PageSplice.Proofs.Page.Standard
import PageSplice.Proofs.Path.Climbing
import PageSplice.Server.Location

/-!
# Containment in the document root

A request is answered with the document of its path below the document root,
and the `..` of a path count there. As long as a request has none, or has names
for all of them, the document is below the root, and so is every resource that
it or a page inside of it refers to by a relative path. A request with more
`..` than names leads above the root, and nothing stops it there.
-/

namespace PageSplice

-- ---------------------------------------------------------------------------
-- Paths of HTML documents
-- ---------------------------------------------------------------------------

namespace Mime

theorem lower_of_slashes {s : Text} (h : ∀ c ∈ s, c = '/') : Text.lower s = s := by
  rw [Html.lower_of_ascii fun c hc => h c hc ▸ by decide]
  exact (List.map_congr_left fun c hc => h c hc ▸ rfl).trans (List.map_id s)

/-- A text of slashes and dots is no path of an HTML document. -/
theorem isHtmlPath_of_dots {s : Text} (h : ∀ c ∈ s, c = '/' ∨ c = '.') : isHtmlPath s = false := by
  have hslashes : ∀ c ∈ Text.afterLast '.' s, c = '/' := fun c hc =>
    (h c (subset_afterLast '.' s hc)).resolve_right fun heq => not_mem_afterLast '.' s (heq ▸ hc)
  have hstem : ∀ c ∈ Text.beforeLast '.' (Text.afterLast '/' s), c = '.' := fun c hc =>
    have hfile := subset_beforeLast '.' _ hc
    (h c (subset_afterLast '/' s hfile)).resolve_left fun heq =>
      not_mem_afterLast '/' s (heq ▸ hfile)
  have hnone : ∀ extension : Text, (∀ c ∈ extension, c = '/') →
      (preferred.find? fun entry => entry.2 = extension) = none := by
    intro extension hextension
    have hpreferred : preferred.all (fun entry => entry.2.any (· ≠ '/')) = true := by decide
    refine List.find?_eq_none.2 fun entry hentry heq => ?_
    obtain ⟨c, hc, hne⟩ := List.any_eq_true.1 (List.all_eq_true.1 hpreferred entry hentry)
    exact of_decide_eq_true hne (hextension c (of_decide_eq_true heq ▸ hc))
  have hguess : Table.builtin.guess? s = none := by
    have hscheme : splitScheme s = (none, s) := by
      have hafter : s.dropWhile (· ≠ ':') = [] := by
        refine List.dropWhile_eq_nil_iff.2 fun c hc => ?_
        rcases h c hc with rfl | rfl <;> decide
      rw [splitScheme, Text.after?, hafter]
    have hsplit : splitExtension s = (s, []) := by
      rw [splitExtension]
      exact if_pos (List.all_eq_true.2 fun c hc => decide_eq_true (hstem c hc))
    have habbreviations : abbreviations.lookup (Text.lower []) = none := by decide
    have hencodings : encodings.contains ([] : Text) = false := by decide
    rw [Table.guess?, hscheme]
    simp only [Table.ofExtension?, hsplit, habbreviations, hencodings, Bool.false_eq_true, if_false]
    decide +kernel
  have hextension : ∀ c ∈ (if s.contains '.' then Text.lower (Text.afterLast '.' s) else []),
      c = '/' := by
    split
    · rw [lower_of_slashes hslashes]
      exact hslashes
    · exact nofun
  rw [isHtmlPath, Table.isHtmlPath, Table.ofPath?, hguess]
  simp only [hnone _ hextension]

/-- The path of an HTML document has a name. -/
theorem segments_ne_nil_of_isHtmlPath {s : Text} (h : isHtmlPath s = true) :
    (Path.ofText s).segments ≠ [] := by
  intro hnil
  have hdots : ∀ c ∈ s, c = '/' ∨ c = '.' := by
    intro c hc
    by_contra hother
    obtain ⟨hslash, hdot⟩ := not_or.1 hother
    obtain ⟨segment, hsegment, -⟩ := (Path.exists_mem_ofText hslash hdot s).2 hc
    exact List.not_mem_nil (hnil ▸ hsegment)
  rw [isHtmlPath_of_dots hdots] at h
  cases h

end Mime

-- ---------------------------------------------------------------------------
-- Requested documents
-- ---------------------------------------------------------------------------

namespace Server

theorem exists_trimLeft (s : Text) :
    ∃ front, (∀ c ∈ front, c = '/') ∧ s = front ++ Text.trimLeft (· = '/') s :=
  ⟨s.takeWhile (· = '/'), fun c hc => of_decide_eq_true (of_mem_takeWhile c hc),
    List.takeWhile_append_dropWhile.symm⟩

theorem exists_trimRight (s : Text) :
    ∃ back, (∀ c ∈ back, c = '/') ∧ s = Text.trimRight (· = '/') s ++ back := by
  obtain ⟨front, hfront, hs⟩ := exists_trimLeft s.reverse
  refine ⟨front.reverse, fun c hc => hfront c (List.mem_reverse.1 hc), ?_⟩
  rw [← List.reverse_inj, hs]
  simp [Text.trimRight, Text.trimLeft]

theorem segments_trimLeft (s : Text) :
    (Path.ofText (Text.trimLeft (· = '/') s)).segments = (Path.ofText s).segments := by
  obtain ⟨front, hfront, hs⟩ := exists_trimLeft s
  have hnone : ∀ c ∈ ([] : Text), c = '/' := nofun
  have hsegments := Path.segments_ofText_of_slashes hfront hnone (Text.trimLeft (· = '/') s)
  rw [List.append_nil, ← hs] at hsegments
  exact hsegments.symm

theorem segments_trimRight (s : Text) :
    (Path.ofText (Text.trimRight (· = '/') s)).segments = (Path.ofText s).segments := by
  obtain ⟨back, hback, hs⟩ := exists_trimRight s
  have hnone : ∀ c ∈ ([] : Text), c = '/' := nofun
  have hsegments := Path.segments_ofText_of_slashes hnone hback (Text.trimRight (· = '/') s)
  rw [List.nil_append, ← hs] at hsegments
  exact hsegments.symm

theorem anchor_trimLeft (s : Text) :
    (Path.ofText (Text.trimLeft (· = '/') s)).anchor = .relative := by
  refine Path.anchor_ofText_eq_relative_iff.2 fun hhead => ?_
  have := List.head?_dropWhile_not (· = '/') s
  rw [Text.trimLeft] at hhead
  simp [hhead] at this

/-- The document that a request asks for is a relative path: the names of the request, and the index
for a directory. -/
theorem requestedDocument_spec (request : Text) :
    (Path.ofText (requestedDocument request)).anchor = .relative ∧
      (Path.ofText (requestedDocument request)).segments ≠ [] ∧
      ((Path.ofText (requestedDocument request)).segments = (Path.ofText request).segments ∨
        (Path.ofText (requestedDocument request)).segments =
          (Path.ofText request).segments ++ ["index.html".toList]) := by
  unfold requestedDocument
  simp only
  split
  · rename_i hhtml
    exact ⟨anchor_trimLeft request, Mime.segments_ne_nil_of_isHtmlPath hhtml,
      .inl (segments_trimLeft request)⟩
  · have hsegments := Path.segments_ofText_append
      (Text.trimRight (· = '/') (Text.trimLeft (· = '/') request)) "index.html".toList
    rw [segments_trimRight, segments_trimLeft] at hsegments
    refine ⟨anchor_trimLeft _, ?_, .inr ?_⟩
    · rw [segments_trimLeft]
      exact hsegments ▸ List.append_ne_nil_of_right_ne_nil _ (by decide)
    · rw [segments_trimLeft]
      exact hsegments

end Server

-- ---------------------------------------------------------------------------
-- Sources
-- ---------------------------------------------------------------------------

namespace Page

open Build Html.Document

variable {σ : Type}

/-- What is written of a path from a single root is no address that lacks a scheme. -/
theorem lacksScheme_toText {p : Path} (hanchor : p.anchor = .root) (hwell : p.WellFormed) :
    lacksScheme p.toText = false := by
  have hhead := Path.head?_joinWith hwell
  rw [Path.toText_of_anchored (hanchor ▸ by decide), hanchor]
  unfold lacksScheme
  cases hnames : Text.joinWith ['/'] p.segments with
  | nil => rfl
  | cons c rest =>
    have hc : c ≠ '/' := fun hc => hhead (by rw [hnames, hc]; rfl)
    have hslashes : "//".toList.isPrefixOf (Anchor.root.toText ++ c :: rest) = false := by
      simp [Anchor.toText, List.isPrefixOf, Ne.symm hc]
    rw [hslashes, Bool.and_false]

/-- Making an element secure keeps its source, unless it is a script whose source lacks a scheme. -/
theorem source_secured {e : Html.Element} {reference : Text}
    (hvalue : e.value? "src".toList = some reference)
    (hscript : e.tag = "script".toList → lacksScheme reference = false) :
    (secured e).value? "src".toList = some reference := by
  obtain ⟨name, insecure, hmem, hinsecure, hlacks, hset⟩ | ⟨-, hkept⟩ := secured_cases e
  · rw [hset]
    simp only [securedAttributes, List.mem_cons, List.not_mem_nil, or_false, Prod.mk.injEq] at hmem
    rcases hmem with ⟨-, rfl⟩ | ⟨htag, rfl⟩
    · rw [e.value?_setAttribute_ne (by decide), hvalue]
    · cases hvalue.symm.trans hinsecure
      cases (hscript htag).symm.trans hlacks
  · rw [hkept, hvalue]

/-- The source of a relative resource in the document that a compilation leaves. -/
theorem Leaves.exists_source {env : Environment σ} {c : PageCompiler σ} {markup path tag : Text}
    {turns : List (CodeRegion × Option Output)} {d w : Html.Document}
    (h : Leaves env c markup path turns w) (hparse : Html.Document.parse markup = .ok d)
    (htag : c.rules.resourceTag = .fit tag) {i : Nat} {e : Html.Element} {reference : Text}
    (he : d.elements[i]? = some e) (hname : e.tag = Text.lower tag)
    (hvalue : e.value? "src".toList = some reference) (hrelative : IsRelative reference) :
    let new := ((Path.directoryOf env.workingDirectory path).join (Path.ofText reference)).toText
    ¬ HasDots reference ∧ ((Text.lower tag = "script".toList → lacksScheme new = false) →
      ∃ e', w.elements[i]? = some e' ∧ e'.value? "src".toList = some new) := by
  obtain ⟨page, s, s', hprepare, -, -, rfl⟩ := h
  obtain ⟨new, helement, hresource, -⟩ := element_of_prepare hparse hprepare htag he
  have hcanonical := hresource hname
  rw [hvalue, Option.getD_some] at hcanonical
  obtain ⟨hdots, -, rfl⟩ | ⟨hnot, -⟩ := canonical?_eq_ok hcanonical
  · refine ⟨hdots, fun hscript => ⟨_, by rw [getElem?_performAll, helement]; rfl, ?_⟩⟩
    rw [value?_actAll_spliceCalls]
    refine source_secured (Html.Element.value?_setAttribute_self e rfl _) fun htag => ?_
    exact hscript (hname.symm.trans htag)
  · exact absurd hrelative hnot

end Page

-- ---------------------------------------------------------------------------
-- Main statement
-- ---------------------------------------------------------------------------

namespace Path

/-- The working directory is nothing to a path that has an anchor. -/
theorem absolute_of_anchored {path : Text} (h : (ofText path).anchor ≠ .relative)
    (workingDirectory : Path) : absolute workingDirectory path = (ofText path).collapse := by
  rw [absolute, join, if_neg h]

/-- A relative reference without dots in a document leads below every directory that the document
lies below. -/
theorem isBelow_of_document {path reference : Text} (hpath : (ofText path).anchor ≠ .relative)
    {workingDirectory directory : Path} (hbelow : (absolute workingDirectory path).IsBelow directory)
    (hrelative : Page.IsRelative reference) (hdots : ¬ Page.HasDots reference) :
    let new := (directoryOf workingDirectory path).join (ofText reference)
    new.anchor = directory.anchor ∧ new.WellFormed ∧ (ofText new.toText).IsBelow directory := by
  have htop : (⟨.root, []⟩ : Path).WellFormed := nofun
  obtain ⟨hanchor, hsegments⟩ := directoryOf_spec (by decide) htop path
  rw [directoryOf, absolute_of_anchored hpath, ← absolute_of_anchored hpath workingDirectory]
    at hanchor hsegments
  obtain ⟨-, hnew, -⟩ := Page.anchored_spec hanchor hsegments hrelative hdots
  refine ⟨?_, ?_, hbelow.of_parent hnew⟩
  · obtain ⟨names, -, h⟩ := hbelow
    rw [join, if_pos (Page.ofText_of_isRelative hrelative hdots).1]
    have hsame := congrArg Path.anchor h
    exact hsame
  · exact .join (fun segment h => ⟨(hsegments segment h).1, (hsegments segment h).2.1⟩)
      (wellFormed_ofText reference)

end Path

namespace Server

open Page Build

variable {σ : Type}

theorem ofText_documentPath {root : Text} (habsolute : root.head? = some '/') (request : Text) :
    Path.ofText (documentPath (some root) request) =
        (Path.ofText root).join (Path.ofText (requestedDocument request)) ∧
      (Path.ofText (documentPath (some root) request)).anchor ≠ .relative := by
  have hroot : (Path.ofText root).anchor ≠ .relative := fun h =>
    Path.anchor_ofText_eq_relative_iff.1 h habsolute
  have hanchor := Path.anchor_join hroot (Path.ofText (requestedDocument request))
  have hread := Path.ofText_toText hanchor
    (.join (Path.wellFormed_ofText root) (Path.wellFormed_ofText (requestedDocument request)))
  exact ⟨hread, fun h => hanchor (hread ▸ h)⟩

/-- The document of a request lies below an absolute document root just where the path of the request
comes down again the way that it climbs above the root, and goes on from there; a path without `..`
climbs nowhere. Below the root, all relative resources of the document and of the pages inside of it
are written as paths below the root, whatever is compiled there and whatever resource elements are
called. Scripts are an exception below a root that begins with two slashes: there their sources are
taken for addresses. -/
theorem document_below_root {root : Text} (habsolute : root.head? = some '/')
    (workingDirectory : Path) (request : Text) :
    let path := documentPath (some root) request
    let directory := (Path.ofText root).collapse
    let way := Path.ofText (requestedDocument request)
    ((Path.absolute workingDirectory path).IsBelow directory ↔
      ∃ names, names ≠ [] ∧ way.collapse.segments =
        directory.segments.drop (directory.segments.length - way.climb) ++ names) ∧
    (['.', '.'] ∉ (Path.ofText request).segments →
      (Path.absolute workingDirectory path).IsBelow directory) ∧
    ((Path.absolute workingDirectory path).IsBelow directory →
      ∀ (settings : Settings σ) (c : PageCompiler σ) (markup : Text) (page : Sheet)
        (s s' : Session σ) (out : Output),
        Sheet.Within c.lookup settings.rules ⟨c.rules, markup, path⟩ page →
        (compile ⟨workingDirectory, settings⟩ ⟨c.lookup, page.rules⟩ page.markup page.path).Yields
          s out s' →
        ∃ d turns w, Html.Document.parse page.markup = .ok d ∧
          Leaves ⟨workingDirectory, settings⟩ ⟨c.lookup, page.rules⟩ page.markup page.path turns w ∧
          out.code = w.serialize ∧
          ∀ tag, page.rules.resourceTag = .fit tag →
            (Text.lower tag = "script".toList → directory.anchor = .root) →
            ∀ (i : Nat) (e : Html.Element) (reference : Text), d.elements[i]? = some e →
              e.tag = Text.lower tag → e.value? "src".toList = some reference →
              IsRelative reference →
              ∃ e' new, w.elements[i]? = some e' ∧ e'.value? "src".toList = some new ∧
                (Path.ofText new).IsBelow directory) := by
  intro path directory way
  obtain ⟨hread, hanchor⟩ := ofText_documentPath habsolute request
  obtain ⟨hrelative, hnames, hsegments⟩ := requestedDocument_spec request
  have hdocument : Path.absolute workingDirectory path = ((Path.ofText root).join way).collapse := by
    rw [Path.absolute_of_anchored hanchor, hread]
  refine ⟨hdocument ▸ Path.isBelow_collapse_join hrelative, fun hup => ?_, ?_⟩
  · rw [hdocument]
    refine Path.isBelow_collapse_join_of_not_mem hrelative hnames ?_
    rcases hsegments with h | h
    · exact h ▸ hup
    · rw [h]
      exact fun hmem => (List.mem_append.1 hmem).elim hup (by decide)
  · intro hbelow settings c markup page s s' out hwithin hyields
    obtain ⟨turns, w, hleaves, rfl⟩ := exists_leaves hyields
    obtain ⟨d, hparse⟩ := hleaves.exists_parse
    refine ⟨d, turns, w, hparse, hleaves, rfl, ?_⟩
    intro tag htag hscript i e reference he hname hvalue hreference
    have hinside : (Path.ofText page.path).anchor ≠ .relative := hwithin.anchor_eq ▸ hanchor
    obtain ⟨hdots, hsource⟩ := hleaves.exists_source hparse htag he hname hvalue hreference
    obtain ⟨hroot, hwell, hnew⟩ :=
      Path.isBelow_of_document hinside (hwithin.isBelow hbelow) hreference hdots
    obtain ⟨e', he', hvalue'⟩ := hsource fun hname =>
      lacksScheme_toText (hroot.trans (hscript hname)) hwell
    exact ⟨e', _, he', hvalue', hnew⟩

theorem document_below_root_nested :
    let settings : Settings Unit := []
    let c : PageCompiler Unit := .ofSettings (Catalog.find none) settings
    let root := "/srv/./www".toList
    let markup := "<script type=text/html><x-require src=b/c.js></script>".toList
    let path := documentPath (some root) "/d/../e/a.html".toList
    let directory : Path := ⟨.root, ["srv".toList, "www".toList]⟩
    root.head? = some '/' ∧
    ¬ (Path.absolute ⟨.root, []⟩ (documentPath (some root) "/../../etc/a.html".toList)).IsBelow
      directory ∧
    ∃ (page : Sheet) (s' : Session Unit) (out : Output) (w : Html.Document) (e' : Html.Element)
      (new : Text),
      Sheet.Within c.lookup settings.rules ⟨c.rules, markup, path⟩ page ∧
      page.markup = "<x-require src=b/c.js>".toList ∧ IsRelative "b/c.js".toList ∧
      (compile ⟨⟨.root, []⟩, settings⟩ ⟨c.lookup, page.rules⟩ page.markup page.path).Yields
        ⟨(), []⟩ out s' ∧
      out.code = w.serialize ∧ w.elements[0]? = some e' ∧ e'.value? "src".toList = some new ∧
      (Path.ofText new).IsBelow directory := by
  intro settings c root markup path directory
  have habsolute : root.head? = some '/' := by decide
  have hdirectory : (Path.ofText root).collapse = directory := by decide
  refine ⟨habsolute, fun hbelow => ?_, ?_⟩
  · obtain ⟨names, -, hnames⟩ := (document_below_root (σ := Unit) habsolute ⟨.root, []⟩
      "/../../etc/a.html".toList).1.1 (hdirectory ▸ hbelow)
    have hway : (Path.ofText (requestedDocument "/../../etc/a.html".toList)).collapse.segments =
        ["etc".toList, "a.html".toList] := by decide +kernel
    have hclimb : (Path.ofText (requestedDocument "/../../etc/a.html".toList)).climb = 2 := by
      decide +kernel
    rw [hway, hclimb, hdirectory] at hnames
    exact absurd (List.head_eq_of_cons_eq hnames) (by decide)
  · obtain ⟨hiff, -, hsources⟩ := document_below_root (σ := Unit) habsolute ⟨.root, []⟩
      "/d/../e/a.html".toList
    have hbelow := hiff.2 ⟨["e".toList, "a.html".toList], by decide, by decide +kernel⟩
    let r : CodeRegion := ⟨.script, 0, 0, some "text/html".toList,
      some (.fit "text/javascript".toList), "<x-require src=b/c.js>".toList⟩
    let page : Sheet := ⟨settings.rules, r.content, identityOf path r⟩
    have hregions : ((Html.Document.parse markup).toOption.bind fun d =>
        (Region.ofDocument c.rules d).toOption) = some [.code r] := by decide +kernel
    obtain ⟨d, hparse, hregions⟩ := Option.bind_eq_some_iff.1 hregions
    have hwithin : Sheet.Within c.lookup settings.rules ⟨c.rules, markup, path⟩ page := by
      refine .single (Sheet.holds_of_isPage (Html.eq_ok_of_toOption hparse)
        (Html.eq_ok_of_toOption hregions) List.mem_cons_self rfl ?_)
      exact ⟨"text/html".toList, rfl, by decide⟩
    have hyields : ((compile ⟨⟨.root, []⟩, settings⟩ ⟨c.lookup, page.rules⟩ page.markup
        page.path).run.run ⟨(), []⟩).1.toOption.map (fun _ => ()) = some () := by decide +kernel
    obtain ⟨out, s', hyields, -⟩ := exists_yields hyields
    obtain ⟨d', turns, w, hparse', -, hcode, hsource⟩ :=
      hsources hbelow settings c markup page ⟨(), []⟩ s' out hwithin hyields
    have hfields : (Html.Document.parse page.markup).toOption.map (fun d =>
        d.elements[0]?.map fun e => (e.tag, e.value? "src".toList)) =
        some (some ("x-require".toList, some "b/c.js".toList)) := by decide +kernel
    rw [hparse'] at hfields
    obtain ⟨e, he, hfields⟩ := Option.map_eq_some_iff.1 (Option.some.inj hfields)
    have hname : e.tag = Text.lower "x-require".toList :=
      (congrArg Prod.fst hfields).trans (by decide)
    have hrelative : IsRelative "b/c.js".toList := isRelative_iff.2 ⟨by decide, by rfl⟩
    obtain ⟨e', new, he', hvalue', hnew⟩ := hsource "x-require".toList rfl (by decide) 0 e _ he hname
      (congrArg Prod.snd hfields) hrelative
    exact ⟨page, s', out, w, e', new, hwithin, rfl, hrelative, hyields, hcode, he', hvalue',
      hdirectory ▸ hnew⟩

end Server

end PageSplice

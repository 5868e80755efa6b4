-- SUMMARY: Pages inside of a page: what is handed to a page compiler, and the paths that such pages have.
import Mathlib.Logic.Relation
import PageSplice.Proofs.Page.Identities
import PageSplice.Proofs.Page.Standard
import PageSplice.Proofs.Path

/-!
# Pages inside of pages

A region whose compiler is a page compiler is a page of its own, with its
identity for a path and with the rules of the moment. The identity goes on from
the path of the page around it within one segment, so all the pages inside of a
page are in its directory, or in one that the page itself lies below.
-/

namespace PageSplice

-- ---------------------------------------------------------------------------
-- Paths that go on
-- ---------------------------------------------------------------------------

namespace Path

/-- A text without slashes behind a path makes a name of its last segment, or is one more name. -/
theorem exists_segments_of_append {back : Text} (hslash : '/' ∉ back) (hname : ':' ∈ back)
    (front : Text) :
    (ofText (front ++ back)).anchor = (ofText front).anchor ∧
      ∃ above name, name ≠ ['.', '.'] ∧ (ofText (front ++ back)).segments = above ++ [name] ∧
        ((ofText front).segments = above ∨ ∃ last, (ofText front).segments = above ++ [last]) := by
  constructor
  · unfold ofText
    have hnone : back.takeWhile (· = '/') = [] := by
      cases back with
      | nil => rfl
      | cons c back =>
        refine List.takeWhile_cons_of_neg fun hc => hslash ?_
        rw [of_decide_eq_true hc]
        exact List.mem_cons_self
    rw [List.takeWhile_append]
    split
    · rename_i hall
      rw [hnone, List.append_nil, (List.takeWhile_prefix _).eq_of_length hall]
    · rfl
  · obtain ⟨pieces, last, hfront, hboth⟩ := Text.exists_splitBy_append (p := fun c => c = '/')
      (fun c hc => decide_eq_false fun h => hslash (h ▸ hc)) front
    have hmem : ':' ∈ last ++ back := List.mem_append_right last hname
    have hproper : isProper (last ++ back) = true :=
      decide_eq_true ⟨List.ne_nil_of_mem hmem, fun h => absurd (h ▸ hmem) (by decide)⟩
    refine ⟨pieces.filter isProper, last ++ back, fun h => absurd (h ▸ hmem) (by decide), ?_, ?_⟩
    · rw [ofText, Text.splitOn, hboth, List.filter_append, List.filter_singleton, hproper]
      rfl
    · rw [ofText, Text.splitOn, hfront, List.filter_append, List.filter_singleton]
      cases isProper last with
      | true => exact .inr ⟨last, rfl⟩
      | false => exact .inl (List.append_nil _)

/-- A path with another last name, or one more, lies below every directory that the path lies below. -/
theorem IsBelow.of_last {p q directory : Path} (hanchor : q.anchor = p.anchor) {above : List Text}
    {name : Text} (hname : name ≠ ['.', '.']) (hq : q.segments = above ++ [name])
    (hp : p.segments = above ∨ ∃ last, p.segments = above ++ [last])
    (h : p.collapse.IsBelow directory) : q.collapse.IsBelow directory := by
  obtain ⟨names, hnames, h⟩ := h
  obtain ⟨hdirectory, hsegments⟩ := Path.mk.inj h
  have habove : ∃ rest, (above.foldl collapseStep []).reverse = directory.segments ++ rest := by
    rcases hp with hp | ⟨last, hp⟩
    · exact ⟨names, hp ▸ hsegments⟩
    · rw [hp, List.foldl_append, List.foldl_cons, List.foldl_nil, collapseStep] at hsegments
      split at hsegments
      · cases hfold : above.foldl collapseStep [] with
        | nil =>
          rw [hfold] at hsegments
          exact absurd hsegments.symm (List.append_ne_nil_of_right_ne_nil _ hnames)
        | cons first rest =>
          rw [hfold] at hsegments
          exact ⟨names ++ [first], by rw [List.reverse_cons, ← List.append_assoc, ← hsegments]; rfl⟩
      · refine ⟨names.dropLast, ?_⟩
        rw [← List.dropLast_append_of_ne_nil hnames, ← hsegments, List.reverse_cons,
          List.dropLast_concat]
  obtain ⟨rest, hrest⟩ := habove
  refine ⟨rest ++ [name], List.append_ne_nil_of_right_ne_nil _ (List.cons_ne_nil _ _), ?_⟩
  rw [collapse, hq, List.foldl_append, List.foldl_cons, List.foldl_nil, collapseStep, if_neg hname,
    List.reverse_cons, hrest, List.append_assoc, hanchor, hdirectory]

/-- What goes on behind a path, within its last segment, lies below every directory that the path
lies below. -/
theorem isBelow_absolute_append {back : Text} (hslash : '/' ∉ back) (hname : ':' ∈ back)
    {workingDirectory directory : Path} {front : Text}
    (h : (absolute workingDirectory front).IsBelow directory) :
    (absolute workingDirectory (front ++ back)).IsBelow directory := by
  obtain ⟨hanchor, above, name, hup, hboth, hfront⟩ := exists_segments_of_append hslash hname front
  unfold absolute join at h ⊢
  rw [hanchor]
  split at h
  · rename_i hrelative
    rw [if_pos hrelative]
    have hall : workingDirectory.segments ++ (ofText (front ++ back)).segments =
        workingDirectory.segments ++ above ++ [name] := by rw [hboth, List.append_assoc]
    refine IsBelow.of_last (by rfl) hup hall ?_ h
    · refine hfront.imp (congrArg (workingDirectory.segments ++ ·)) ?_
      rintro ⟨last, hfront⟩
      exact ⟨last, by rw [hfront, List.append_assoc]⟩
  · rename_i hrelative
    rw [if_neg hrelative]
    exact h.of_last hanchor hup hboth hfront

end Path

-- ---------------------------------------------------------------------------
-- Paths of regions
-- ---------------------------------------------------------------------------

namespace Mime

theorem slash_not_mem_subtypeExtension (type : Text) : '/' ∉ subtypeExtension type := by
  unfold subtypeExtension
  simp only
  split
  · decide
  · cases hx : "x-".toList.isPrefixOf? (Text.afterLast '/' type) with
    | none => exact not_mem_afterLast '/' type
    | some rest =>
      have hrest := List.append_eq_of_isPrefixOf?_eq_some hx
      exact fun h => not_mem_afterLast '/' type (hrest ▸ List.mem_append_right _ h)

/-- An extension is part of one segment. -/
theorem slash_not_mem_extension (type : Text) : '/' ∉ extension type := by
  rw [extension, Table.extension]
  split
  · rename_i found hfound
    have hpreferred : ∀ entry ∈ preferred, '/' ∉ entry.2 := by decide
    obtain ⟨before, after, heq, -⟩ := List.lookup_eq_some_iff.1 hfound
    exact hpreferred (_, found) (heq ▸ List.mem_append_right before List.mem_cons_self)
  · split
    · rename_i found hfound
      have hregistered : ∀ entry ∈ Table.builtin.registered, '/' ∉ entry.1 := by decide +kernel
      obtain ⟨entry, hentry, rfl⟩ := Option.map_eq_some_iff.1 hfound
      exact fun h => hregistered entry (List.mem_of_find?_eq_some hentry)
        ((List.dropWhile_sublist _).subset h)
    · exact slash_not_mem_subtypeExtension _

theorem slash_not_mem_ofInt (ordinal : Int) : '/' ∉ Text.ofInt ordinal := by
  have hdigits (n : Nat) : '/' ∉ Text.ofNat n := fun h =>
    absurd (Nat.isDigit_of_mem_toDigits (by decide) (by decide) h) (by decide)
  cases ordinal with
  | ofNat n => exact hdigits n
  | negSucc n => exact fun h => (List.mem_cons.1 h).elim (by decide) (hdigits (n + 1))

/-- The path that is made up for a region goes on from that of its document, within one segment. -/
theorem exists_identity_eq_append (path : Text) (ordinal : Int) (type : Text) :
    ∃ back, identity path ordinal type = path ++ back ∧ '/' ∉ back ∧ ':' ∈ back := by
  refine ⟨":inline_".toList ++ Text.ofInt ordinal ++ ['.'] ++ extension type, ?_, ?_, ?_⟩
  · simp only [identity, List.append_assoc]
  · simp [slash_not_mem_ofInt, slash_not_mem_extension]
  · simp

end Mime

-- ---------------------------------------------------------------------------
-- Pages inside of a page
-- ---------------------------------------------------------------------------

namespace Page

variable {σ : Type}

/-- What a page compiler is handed: the markup of a page, its path, and what counts as a region. -/
structure Sheet where
  rules : RegionRules
  markup : Text
  path : Text

namespace Sheet

/-- Whether a page has a region that is compiled as a page: where types lead to the compilers that
`lookup` finds, and `nested` are the rules for pages inside. -/
def Holds (lookup : Lookup σ) (nested : RegionRules) (outer inner : Sheet) : Prop :=
  ∃ d regions r type name, Html.Document.parse outer.markup = .ok d ∧
    Region.ofDocument outer.rules d = .ok regions ∧ .code r ∈ regions ∧ r.mimeType.isSome = true ∧
    r.typeText = .ok type ∧ lookup.find? type = .ok (some (.html name)) ∧
    Mime.isHtmlPath (identityOf outer.path r) = true ∧
    inner = ⟨nested, r.content, identityOf outer.path r⟩

/-- Whether a page is this one, or inside of it at whatever depth. -/
def Within (lookup : Lookup σ) (nested : RegionRules) : Sheet → Sheet → Prop :=
  Relation.ReflTransGen (Holds lookup nested)

variable {lookup : Lookup σ} {nested : RegionRules} {outer inner : Sheet}

/-- By default a region that is a page is compiled as a page inside of its page. -/
theorem holds_of_isPage {d : Html.Document} {regions : List Region} {r : CodeRegion}
    (hparse : Html.Document.parse outer.markup = .ok d)
    (hregions : Region.ofDocument outer.rules d = .ok regions) (hr : .code r ∈ regions)
    (hsome : r.mimeType.isSome = true) (hpage : IsPage r) :
    Holds (defaultLookup σ) nested outer ⟨nested, r.content, identityOf outer.path r⟩ := by
  obtain ⟨type, htype, hnormal⟩ := hpage
  refine ⟨d, regions, r, type, _, hparse, hregions, hr, hsome, htype, find?_eq_html_iff.2 hnormal,
    ?_, rfl⟩
  rw [identityOf_eq htype]
  exact isHtmlPath_identity hnormal _ _

theorem Holds.length_lt (h : Holds lookup nested outer inner) :
    inner.markup.length < outer.markup.length := by
  obtain ⟨d, regions, r, type, name, hparse, hregions, hr, -, -, -, -, rfl⟩ := h
  exact Html.Document.markup_of_parse hparse ▸ Region.length_content_lt hregions hr

/-- A page inside of a page has a path that goes on behind that of the page, within its last
segment. -/
theorem Holds.exists_path (h : Holds lookup nested outer inner) :
    ∃ back, inner.path = outer.path ++ back ∧ '/' ∉ back ∧ ':' ∈ back := by
  obtain ⟨d, regions, r, type, name, -, -, -, -, -, -, -, rfl⟩ := h
  exact Mime.exists_identity_eq_append outer.path r.ordinal (typeOf r)

theorem Within.anchor_eq (h : Within lookup nested outer inner) :
    (Path.ofText inner.path).anchor = (Path.ofText outer.path).anchor := by
  induction h with
  | refl => rfl
  | tail _ hholds ih =>
    obtain ⟨back, hpath, hslash, hname⟩ := hholds.exists_path
    rw [hpath, (Path.exists_segments_of_append hslash hname _).1]
    exact ih

/-- All pages inside of a page lie below the directories that the page lies below. -/
theorem Within.isBelow {workingDirectory directory : Path} (h : Within lookup nested outer inner)
    (hbelow : (Path.absolute workingDirectory outer.path).IsBelow directory) :
    (Path.absolute workingDirectory inner.path).IsBelow directory := by
  induction h with
  | refl => exact hbelow
  | tail _ hholds ih =>
    obtain ⟨back, hpath, hslash, hname⟩ := hholds.exists_path
    exact hpath ▸ Path.isBelow_absolute_append hslash hname ih

end Sheet

end Page

end PageSplice

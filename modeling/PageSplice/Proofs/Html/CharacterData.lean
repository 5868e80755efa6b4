-- SUMMARY: Character data in front of markup: when it hides elements, and that it only moves them otherwise.
import PageSplice.Proofs.Html.RawText

/-!
# Character data

A text without `<` holds no tag, so in front of markup it should do no more than
move the elements. One kind of text does more: a reference by number that is not
well-formed stops a pass. Behind the first one the scan is in its last pass, and
at the second one, or where no semicolon follows the first, the scan is over and
what follows is not looked at. In front of markup a text hides elements exactly
where it holds such a reference and this matters to the markup.
-/

namespace PageSplice.Html

-- ---------------------------------------------------------------------------
-- References by number that are not well-formed
-- ---------------------------------------------------------------------------

/-- Whether a reference by number that is not well-formed stands at the front of character data that
ends in front of a tag. -/
def beginsBroken : Text → Bool
  | '&' :: '#' :: r => (afterNumber? (r ++ ['<'])).isNone
  | _ => false

/-- Character data from its first reference by number on that is not well-formed. -/
def fromBroken : Text → Text
  | [] => []
  | c :: r => if beginsBroken (c :: r) then c :: r else fromBroken r

theorem fromBroken_isSuffix (t : Text) : fromBroken t <:+ t := by
  induction t with
  | nil => exact List.suffix_refl _
  | cons c r ih =>
    unfold fromBroken
    split
    · exact List.suffix_refl _
    · exact ih.trans (List.suffix_cons c r)

theorem fromBroken_cases (t : Text) :
    fromBroken t = [] ∨ ∃ r, fromBroken t = '&' :: '#' :: r ∧ afterNumber? (r ++ ['<']) = none := by
  induction t with
  | nil => exact .inl rfl
  | cons c r ih =>
    unfold fromBroken
    split
    · rename_i hbroken
      unfold beginsBroken at hbroken
      split at hbroken
      · rename_i s heq
        exact .inr ⟨s, heq, Option.isNone_iff_eq_none.1 hbroken⟩
      · cases hbroken
    · exact ih

theorem afterNumber?_of_fromBroken {t r : Text} (h : fromBroken t = '&' :: '#' :: r) :
    afterNumber? (r ++ ['<']) = none := by
  rcases fromBroken_cases t with hnone | ⟨s, hs, hnumber⟩
  · cases h.symm.trans hnone
  · cases h.symm.trans hs
    exact hnumber

/-- A reference begins with an ampersand, so none begins in a text that holds no ampersand. -/
theorem fromBroken_append {skipped : Text} (h : '&' ∉ skipped) (rest : Text) :
    fromBroken (skipped ++ rest) = fromBroken rest := by
  induction skipped with
  | nil => rfl
  | cons c r ih =>
    have hc : '&' ≠ c := List.ne_of_not_mem_cons h
    have hplain : beginsBroken (c :: (r ++ rest)) = false := by
      unfold beginsBroken
      split
      · rename_i heq
        exact absurd (List.cons.inj heq).1.symm hc
      · rfl
    rw [List.cons_append, fromBroken, hplain]
    exact ih (List.not_mem_of_not_mem_cons h)

-- ---------------------------------------------------------------------------
-- Steps on character data
-- ---------------------------------------------------------------------------

/-- Whether `rest` is what is left of `s` behind a text that holds no ampersand. -/
def Leaves (s rest : Text) : Prop := ∃ skipped, s = skipped ++ rest ∧ '&' ∉ skipped

theorem Leaves.cons {c : Char} {s rest : Text} (hc : c ≠ '&') (h : Leaves s rest) :
    Leaves (c :: s) rest := by
  obtain ⟨skipped, rfl, hskipped⟩ := h
  refine ⟨c :: skipped, rfl, fun hmem => ?_⟩
  rcases List.mem_cons.1 hmem with heq | hmem
  · exact hc heq.symm
  · exact hskipped hmem

theorem Leaves.length_le {s rest : Text} (h : Leaves s rest) : rest.length ≤ s.length := by
  obtain ⟨skipped, rfl, -⟩ := h
  rw [List.length_append]
  exact Nat.le_add_left _ _

theorem leaves_dropWhile {p : Char → Bool} (hp : p '&' = false) (s : Text) :
    Leaves s (s.dropWhile p) := by
  refine ⟨s.takeWhile p, List.takeWhile_append_dropWhile.symm, fun hmem => ?_⟩
  rw [of_mem_takeWhile _ hmem] at hp
  cases hp

theorem leaves_skipSemicolon {p : Char → Bool} (hp : p '&' = false) (s : Text) :
    Leaves s (CharRef.skipSemicolon (s.dropWhile p)) := by
  obtain ⟨skipped, hs, hskipped⟩ := leaves_dropWhile hp s
  unfold CharRef.skipSemicolon
  split
  · rename_i r heq
    refine ⟨skipped ++ [';'], ?_, ?_⟩
    · rw [List.append_assoc, List.singleton_append, ← heq]
      exact hs
    · simp [hskipped]
  · exact ⟨skipped, hs, hskipped⟩

/-- A well-formed reference by number leaves what stands behind it. -/
theorem leaves_of_afterNumber? {s rest : Text} (h : afterNumber? s = some rest) : Leaves s rest := by
  unfold afterNumber? at h
  split at h
  · cases h
  · rename_i c r
    split at h
    · split at h
      · cases h
      · rename_i d t hd
        split at h
        · cases h
        · cases h
          rw [← hd]
          exact leaves_skipSemicolon (by decide) _
    · split at h
      · rename_i hx
        split at h
        · cases h
        · rename_i d t hd
          cases h
          rw [← hd]
          refine (leaves_skipSemicolon (by decide) r).cons fun heq => ?_
          rw [heq] at hx
          exact absurd hx.1 (by decide)
      · cases h

theorem Leaves.of_append {s rest t : Text} (h : Leaves (s ++ t) (rest ++ t)) : Leaves s rest := by
  obtain ⟨skipped, heq, hskipped⟩ := h
  rw [← List.append_assoc] at heq
  exact ⟨skipped, List.append_cancel_right heq, hskipped⟩

/-- A reference in front of a tag is inert, unless it is one by number that is not well-formed. -/
theorem exists_ampersandStep_data (last : Bool) {r : Text} (h : beginsBroken ('&' :: r) = false)
    (z : Text) : ∃ rest, Leaves r rest ∧
      ampersandStep last (r ++ '<' :: z) = .inert ('&' :: (r ++ '<' :: z)) (rest ++ '<' :: z) := by
  cases r with
  | nil => exact ⟨[], ⟨[], rfl, List.not_mem_nil⟩, rfl⟩
  | cons c t =>
    by_cases hnumber : c = '#'
    · subst hnumber
      obtain ⟨found, hfound⟩ := exists_afterNumber? t
      cases found with
      | none =>
        rw [beginsBroken, hfound []] at h
        cases h
      | some rest =>
        have hleaves : Leaves t rest := (leaves_of_afterNumber? (hfound z)).of_append
        refine ⟨rest, hleaves.cons (by decide), ?_⟩
        simp only [List.cons_append, ampersandStep, hfound z, Option.map_some]
    · rw [List.cons_append, ampersandStep_of_ne last hnumber]
      cases halpha : c.isAlpha with
      | false =>
        refine ⟨c :: t, ⟨[], rfl, List.not_mem_nil⟩, ?_⟩
        simp only [afterEntity?, List.head?_cons, Option.map_some, Option.getD_some, halpha,
          Bool.false_eq_true, if_false]
        rfl
      | true =>
        have hname : (c :: (t ++ '<' :: z)).dropWhile isEntityChar =
            (c :: t).dropWhile isEntityChar ++ '<' :: z := dropWhile_append_tag (by decide) (c :: t) z
        obtain ⟨d, hd⟩ := exists_head_append_tag ((c :: t).dropWhile isEntityChar)
        obtain ⟨t', ht'⟩ := hd z
        refine ⟨_, leaves_skipSemicolon (p := isEntityChar) (by decide) (c :: t), ?_⟩
        simp only [afterEntity?, List.head?_cons, Option.map_some, Option.getD_some, halpha, if_true,
          hname, ht']
        rw [← ht', skipSemicolon_append_tag]
        rfl

/-- Character data in front of a tag that does not begin with a broken reference is inert up to a
place in front of the tag. -/
theorem exists_step_data (last : Bool) {c : Char} {r : Text} (hless : c ≠ '<')
    (hbroken : beginsBroken (c :: r) = false) (z : Text) :
    ∃ rest, Leaves r rest ∧
      step last none (c :: r ++ '<' :: z) = .ok (.inert (c :: r ++ '<' :: z) (rest ++ '<' :: z)) := by
  by_cases hamp : c = '&'
  · subst hamp
    obtain ⟨rest, hleaves, hstep⟩ := exists_ampersandStep_data last hbroken z
    exact ⟨rest, hleaves, congrArg Except.ok hstep⟩
  · refine ⟨_, leaves_dropWhile (p := isPlain) (by decide) r, ?_⟩
    simp only [step, plainStep, List.cons_append, hless, hamp, if_false,
      dropWhile_append_tag (show isPlain '<' = false by decide)]

/-- At a broken reference, a pass stops: behind the reference's first two characters if a semicolon
follows, and in front of them otherwise. -/
theorem step_broken (last : Bool) {r : Text} (h : afterNumber? (r ++ ['<']) = none) (z : Text) :
    step last none ('&' :: '#' :: r ++ '<' :: z) =
      .ok (if ';' ∈ r ++ '<' :: z then .stop ['&', '#'] (r ++ '<' :: z)
        else .stop [] ('&' :: '#' :: r ++ '<' :: z)) := by
  obtain ⟨found, hfound⟩ := exists_afterNumber? r
  have hnone : found = none := Option.map_eq_none_iff.1 ((hfound []).symm.trans h)
  have hnumber : afterNumber? (r ++ '<' :: z) = none := by rw [hfound z, hnone]; rfl
  simp only [step, plainStep, List.cons_append, ampersandStep, hnumber, List.contains_iff_mem]
  rfl

-- ---------------------------------------------------------------------------
-- Reading character data
-- ---------------------------------------------------------------------------

theorem AllInert.append {tokens more : List Token} (h : AllInert tokens) (h' : AllInert more) :
    AllInert (tokens ++ more) :=
  fun t ht => (List.mem_append.1 ht).elim (h t) (h' t)

theorem AllInert.skippedTokens_append {tokens : List Token} (h : AllInert tokens) (skipped : Text) :
    AllInert (skippedTokens skipped ++ tokens) := by
  unfold skippedTokens
  split
  · exact h
  · exact h.cons skipped

/-- Character data in front of a tag is inert up to its first broken reference. -/
theorem exists_reads_data (last : Bool) {t : Text} (hdata : '<' ∉ t) (z : Text) :
    ∃ tokens, AllInert tokens ∧
      Reads ⟨last, none, t ++ '<' :: z⟩ tokens ⟨last, none, fromBroken t ++ '<' :: z⟩ := by
  induction hn : t.length using Nat.strongRecOn generalizing t with
  | _ n ih =>
    cases t with
    | nil => exact ⟨[], by simp [AllInert], .refl _⟩
    | cons c r =>
      have hless : c ≠ '<' := Ne.symm (List.ne_of_not_mem_cons hdata)
      have hdata : '<' ∉ r := List.not_mem_of_not_mem_cons hdata
      cases hbroken : beginsBroken (c :: r) with
      | true =>
        rw [fromBroken, hbroken]
        exact ⟨[], by simp [AllInert], .refl _⟩
      | false =>
        obtain ⟨rest, hleaves, hstep⟩ := exists_step_data last hless hbroken z
        have hlength := hleaves.length_le
        obtain ⟨skipped, rfl, hskipped⟩ := hleaves
        obtain ⟨tokens, hinert, hreads⟩ := ih rest.length
          (by rw [← hn, List.length_cons]; exact Nat.lt_succ_of_le hlength)
          (fun hmem => hdata (List.mem_append_right _ hmem)) rfl
        refine ⟨_, hinert.cons _, .token hstep ?_⟩
        rw [fromBroken, hbroken, if_neg Bool.false_ne_true, fromBroken_append hskipped]
        exact hreads

/-- The last pass is over at a broken reference. -/
theorem exists_scans_broken {r : Text} (h : afterNumber? (r ++ ['<']) = none) (z : Text) :
    ∃ tokens, AllInert tokens ∧ Scans ⟨true, none, '&' :: '#' :: r ++ '<' :: z⟩ tokens := by
  have hstep := step_broken true h z
  split at hstep
  · exact ⟨_, by simp [AllInert, skippedTokens], .done hstep⟩
  · exact ⟨_, by simp [AllInert, skippedTokens], .done hstep⟩

/-- The last pass finds nothing behind character data that holds a broken reference. -/
theorem exists_scans_data_broken {t : Text} (hdata : '<' ∉ t) (hbroken : fromBroken t ≠ [])
    (z : Text) : ∃ tokens, AllInert tokens ∧ Scans ⟨true, none, t ++ '<' :: z⟩ tokens := by
  obtain ⟨front, hfront, hreads⟩ := exists_reads_data true hdata z
  rcases fromBroken_cases t with hnone | ⟨r, hr, hnumber⟩
  · exact absurd hnone hbroken
  · rw [hr] at hreads
    obtain ⟨tokens, htokens, hscans⟩ := exists_scans_broken hnumber z
    exact ⟨_, hfront.append htokens, hreads.scans hscans⟩

/-- Where no semicolon follows a broken reference, the scan finds nothing behind it. -/
theorem exists_scans_data_stuck {t r : Text} (hdata : '<' ∉ t) (hr : fromBroken t = '&' :: '#' :: r)
    {z : Text} (hsemicolon : ';' ∉ r ++ '<' :: z) :
    ∃ tokens, AllInert tokens ∧ Scans ⟨false, none, t ++ '<' :: z⟩ tokens := by
  obtain ⟨front, hfront, hreads⟩ := exists_reads_data false hdata z
  have hnumber := afterNumber?_of_fromBroken hr
  have hstep := step_broken false hnumber z
  rw [if_neg hsemicolon] at hstep
  obtain ⟨tokens, htokens, hscans⟩ := exists_scans_broken hnumber z
  rw [hr] at hreads
  exact ⟨_, hfront.append (htokens.skippedTokens_append []), hreads.scans (.again hstep hscans)⟩

/-- Where a semicolon follows, the scan goes on behind the beginning of the broken reference, in its
last pass. -/
theorem exists_reads_data_again {t r : Text} (hdata : '<' ∉ t) (hr : fromBroken t = '&' :: '#' :: r)
    {z : Text} (hsemicolon : ';' ∈ r ++ '<' :: z) :
    ∃ tokens, AllInert tokens ∧
      Reads ⟨false, none, t ++ '<' :: z⟩ tokens ⟨true, none, r ++ '<' :: z⟩ := by
  obtain ⟨front, hfront, hreads⟩ := exists_reads_data false hdata z
  have hstep := step_broken false (afterNumber?_of_fromBroken hr) z
  rw [if_pos hsemicolon] at hstep
  rw [hr] at hreads
  have hinert : AllInert (skippedTokens ['&', '#'] ++ []) :=
    AllInert.skippedTokens_append (by simp [AllInert]) _
  exact ⟨_, hfront.append hinert, hreads.trans (.again hstep (.refl _))⟩

theorem ampersandStep_cases (last : Bool) (s : Text) :
    (∃ source rest, ampersandStep last s = .token (.inert source) rest) ∨
      ∃ skipped rest, ampersandStep last s = .stop skipped rest := by
  unfold ampersandStep
  split
  · split
    · exact .inl ⟨_, _, rfl⟩
    · split <;> exact .inr ⟨_, _, rfl⟩
  · split
    · exact .inl ⟨_, _, rfl⟩
    · split
      · exact .inr ⟨_, _, rfl⟩
      · split
        · split <;> exact .inr ⟨_, _, rfl⟩
        · exact .inl ⟨_, _, rfl⟩

/-- A step on character data at the end of the markup finds no tag. -/
theorem step_data_end (last : Bool) {s : Text} (hdata : '<' ∉ s) :
    (∃ source rest, step last none s = .ok (.token (.inert source) rest)) ∨
      ∃ skipped rest, step last none s = .ok (.stop skipped rest) := by
  cases s with
  | nil => exact .inr ⟨[], [], rfl⟩
  | cons c r =>
    have hless : c ≠ '<' := Ne.symm (List.ne_of_not_mem_cons hdata)
    by_cases hamp : c = '&'
    · subst hamp
      rcases ampersandStep_cases last r with ⟨source, rest, h⟩ | ⟨skipped, rest, h⟩
      · exact .inl ⟨source, rest, congrArg Except.ok h⟩
      · exact .inr ⟨skipped, rest, congrArg Except.ok h⟩
    · refine .inl ⟨Text.upTo (c :: r) (r.dropWhile isPlain), r.dropWhile isPlain, ?_⟩
      simp only [step, plainStep, hless, hamp, if_false]
      rfl

/-- Character data at the end of the markup is inert, where a pass that stops in it is followed by
one that finds no tag. -/
theorem exists_scans_data_end_of_stop {last : Bool}
    (hstop : ∀ {s skipped rest : Text}, '<' ∉ s → step last none s = .ok (.stop skipped rest) →
      ∃ tokens, AllInert tokens ∧ Scans ⟨last, none, s⟩ tokens) {s : Text} (hdata : '<' ∉ s) :
    ∃ tokens, AllInert tokens ∧ Scans ⟨last, none, s⟩ tokens := by
  induction hn : s.length using Nat.strongRecOn generalizing s with
  | _ n ih =>
    rcases step_data_end last hdata with ⟨source, rest, hstep⟩ | ⟨skipped, rest, hstep⟩
    · have hsuffix : source ++ rest = s := (step_cuts hstep).2
      obtain ⟨tokens, hinert, hscans⟩ := ih rest.length (hn ▸ length_lt_of_step hstep)
        (fun hmem => hdata (hsuffix ▸ List.mem_append_right _ hmem)) rfl
      exact ⟨_, hinert.cons source, .token hstep hscans⟩
    · exact hstop hdata hstep

/-- Character data at the end of the markup is inert. -/
theorem exists_scans_data_end (last : Bool) {s : Text} (hdata : '<' ∉ s) :
    ∃ tokens, AllInert tokens ∧ Scans ⟨last, none, s⟩ tokens := by
  have htrue {s : Text} (hdata : '<' ∉ s) :
      ∃ tokens, AllInert tokens ∧ Scans ⟨true, none, s⟩ tokens :=
    exists_scans_data_end_of_stop (fun {_ skipped rest} _ hstep =>
      ⟨_, AllInert.skippedTokens_append (by simp [AllInert]) skipped, .done hstep⟩) hdata
  cases last with
  | true => exact htrue hdata
  | false =>
    refine exists_scans_data_end_of_stop (fun {_ skipped rest} hdata hstep => ?_) hdata
    have hsuffix : skipped ++ rest = _ := step_cuts hstep
    obtain ⟨tokens, hinert, hscans⟩ :=
      htrue (s := rest) fun hmem => hdata (hsuffix ▸ List.mem_append_right _ hmem)
    exact ⟨_, hinert.skippedTokens_append skipped, .again hstep hscans⟩

-- ---------------------------------------------------------------------------
-- Moved elements
-- ---------------------------------------------------------------------------

/-- The element, `n` characters further on. -/
def Element.moved (n : Nat) (e : Element) : Element :=
  { e with start := n + e.start, bodyEnd := e.bodyEnd.map (n + ·) }

theorem Element.moved_injective {n : Nat} {e f : Element} (h : e.moved n = f.moved n) : e = f := by
  obtain ⟨_, _, _, _, _, _, _⟩ := e
  obtain ⟨_, _, _, _, _, _, _⟩ := f
  simp only [moved, Element.mk.injEq, Nat.add_left_cancel_iff] at h
  obtain ⟨rfl, rfl, hend, rfl, rfl, rfl, rfl⟩ := h
  rw [Option.map_injective (fun a b => Nat.add_left_cancel) hend]

namespace Outline

/-- What has been read, `n` characters further on. -/
def moved (n : Nat) (o : Outline) : Outline :=
  ⟨o.elements.map (Element.moved n), o.stack, n + o.offset⟩

theorem map_modify_moved (n : Nat) {i : Nat} {f g : Element → Element}
    (h : ∀ e, (f e).moved n = g (e.moved n)) (elements : List Element) :
    (elements.modify i f).map (Element.moved n) = (elements.map (Element.moved n)).modify i g := by
  refine List.ext_getElem? fun j => ?_
  rw [List.getElem?_map, List.getElem?_modify, List.getElem?_modify, List.getElem?_map]
  cases elements[j]? with
  | none => rfl
  | some e =>
    refine congrArg some ?_
    dsimp only
    split
    · exact h e
    · rfl

theorem read_moved (n : Nat) (o : Outline) (t : Token) : (o.moved n).read t = (o.read t).moved n := by
  cases t with
  | inert source => simp only [read, moved, Nat.add_assoc]
  | start tag =>
    have hbegun : (o.begun tag).moved n = (o.moved n).begun tag := by
      unfold begun Element.moved
      split <;> simp only [moved, Option.map_some, Option.map_none, Nat.add_assoc]
    have hmarked : o.marked.map (Element.moved n) = (o.moved n).marked := by
      unfold marked
      dsimp only [moved]
      split
      · rfl
      · exact map_modify_moved n (f := fun e => { e with hasChildren := true }) (fun e => rfl) _
    simp only [read, addElement_eq, ← hmarked, ← hbegun]
    simp only [moved, List.map_append, List.map_cons, List.map_nil, List.length_map, Nat.add_assoc]
  | close name source =>
    simp only [read, closeElement, moved]
    split
    · simp only [Nat.add_assoc]
    · rw [map_modify_moved n (g := fun e => { e with bodyEnd := some (n + o.offset) }) fun e => rfl]
      simp only [Nat.add_assoc]

/-- Further on, the same is read. -/
theorem foldl_read_moved (n : Nat) (o : Outline) (tokens : List Token) :
    tokens.foldl read (o.moved n) = (tokens.foldl read o).moved n := by
  induction tokens generalizing o with
  | nil => rfl
  | cons t rest ih => rw [List.foldl_cons, read_moved, ih, List.foldl_cons]

end Outline

namespace Document

/-- The document with a text in front of its markup, and its elements moved behind that. -/
def behind (t : Text) (d : Document) : Document :=
  ⟨t ++ d.markup, d.elements.map (Element.moved t.length)⟩

/-- Whether the last pass finds all elements of the document when it begins in front of them. -/
def IsFoundAtOnce (d : Document) : Prop :=
  ∃ p, pass true none d.markup = .ok p ∧ elementsOf d.markup p.tokens = d.elements

theorem elementsOf_append_of_allInert {tokens : List Token} (h : AllInert tokens)
    (more : List Token) : Outline.elementsOf (tokens ++ more) =
      (Outline.elementsOf more).map (Element.moved (sourceOf tokens).length) := by
  have hfold : tokens.foldl Outline.read .empty = Outline.empty.moved (sourceOf tokens).length := by
    rw [foldl_read_allInert h]
    simp only [Outline.empty, Outline.moved, Nat.add_comm, List.map_nil]
  rw [Outline.elementsOf, List.foldl_append, hfold, Outline.foldl_read_moved]
  rfl

theorem elementsOf_of_allInert {tokens : List Token} (h : AllInert tokens) :
    Outline.elementsOf tokens = [] := by
  rw [Outline.elementsOf, foldl_read_allInert h]
  rfl

theorem elementsOf_append_inert (tokens : List Token) (source : Text) :
    Outline.elementsOf (tokens ++ [.inert source]) = Outline.elementsOf tokens := by
  rw [Outline.elementsOf, List.foldl_append]
  rfl

/-- The empty markup has no element, and nothing is missed in it. -/
theorem parse_nil : parse [] = .ok ⟨[], []⟩ ∧ IsFoundAtOnce ⟨[], []⟩ := by
  have hempty (last : Bool) : step last none [] = .ok (.stop [] []) := rfl
  have hscans : Scans ⟨false, none, []⟩ [.inert []] := .again (hempty false) (.done (hempty true))
  refine ⟨?_, _, pass_of_stop (hempty true), rfl⟩
  rw [parse_eq (tokensOf_eq_ok_iff.2 hscans)]
  rfl

/-- Whether text is read as a document behind a text depends on the elements alone. -/
theorem parse_eq_behind_iff {markup : Text} {d : Document} (h : parse markup = .ok d) {t : Text}
    {tokens : List Token} (hscans : Scans ⟨false, none, t ++ markup⟩ tokens) :
    parse (t ++ markup) = .ok (d.behind t) ↔
      Outline.elementsOf tokens = d.elements.map (Element.moved t.length) := by
  have hterminated : unterminated? (d.elements.map (Element.moved t.length)) = none := by
    have hnone := unterminated?_of_parse h
    rw [unterminated?, List.find?_eq_none] at hnone ⊢
    intro e he
    obtain ⟨e₀, he₀, rfl⟩ := List.mem_map.1 he
    simpa only [Element.moved, Element.tag, Element.isClosed, Option.isSome_map] using hnone e₀ he₀
  rw [parse_eq (tokensOf_eq_ok_iff.2 hscans), ofElements]
  constructor
  · intro hparse
    split at hparse
    · cases hparse
    · exact congrArg Document.elements (Except.ok.inj hparse)
  · intro helements
    rw [helements, hterminated, behind, markup_of_parse h]

/-- A closed or open element has its text behind a text as well. -/
theorem text_behind (d : Document) (t : Text) (e : Element) :
    (d.behind t).text (e.moved t.length) = d.text e := by
  have hbody : (d.behind t).body (e.moved t.length) = d.body e := by
    unfold body behind Element.moved
    cases e.bodyEnd with
    | none => rfl
    | some stop =>
      simp only [Option.map_some, Element.bodyStart, Text.slice, Nat.add_assoc]
      rw [List.take_length_add_append, List.drop_length_add_append]
  rw [text, text, hbody]
  rfl

section AppendData

variable {t markup : Text} {d : Document}

/-- Where nothing is found behind a text, the text hides no element only if there is none. -/
theorem parse_eq_behind_iff_of_allInert (h : parse markup = .ok d) {tokens : List Token}
    (hinert : AllInert tokens) (hscans : Scans ⟨false, none, t ++ markup⟩ tokens) :
    parse (t ++ markup) = .ok (d.behind t) ↔ d.elements = [] := by
  rw [parse_eq_behind_iff h hscans, elementsOf_of_allInert hinert, eq_comm, List.map_eq_nil_iff]

theorem sourceOf_of_reads {tokens : List Token} {last : Bool}
    (hreads : Reads ⟨false, none, t ++ markup⟩ tokens ⟨last, none, markup⟩) : sourceOf tokens = t :=
  List.append_cancel_right hreads.source

/-- Where the scan comes to the markup behind a text in its first pass, all its elements are found. -/
theorem parse_behind_of_reads (h : parse markup = .ok d) {tokens : List Token}
    (hinert : AllInert tokens)
    (hreads : Reads ⟨false, none, t ++ markup⟩ tokens ⟨false, none, markup⟩) :
    parse (t ++ markup) = .ok (d.behind t) := by
  obtain ⟨more, hmore, helements⟩ := exists_tokens h
  refine (parse_eq_behind_iff h (hreads.scans (tokensOf_eq_ok_iff.1 hmore))).2 ?_
  rw [elementsOf_append_of_allInert hinert, sourceOf_of_reads hreads, helements, Outline.elementsOf]

/-- Where the scan comes to the markup behind a text in its last pass, the elements are found that
this pass finds. -/
theorem parse_eq_behind_iff_of_reads (h : parse markup = .ok d) {tokens : List Token}
    (hinert : AllInert tokens)
    (hreads : Reads ⟨false, none, t ++ markup⟩ tokens ⟨true, none, markup⟩) :
    parse (t ++ markup) = .ok (d.behind t) ↔ d.IsFoundAtOnce := by
  have helements (p : Pass) : Outline.elementsOf (tokens ++ (p.tokens ++ [.inert p.rest])) =
      (Outline.elementsOf p.tokens).map (Element.moved t.length) := by
    rw [elementsOf_append_of_allInert hinert, sourceOf_of_reads hreads, elementsOf_append_inert]
  rw [IsFoundAtOnce, markup_of_parse h]
  constructor
  · intro hparse
    obtain ⟨all, hall, -⟩ := exists_tokens hparse
    obtain ⟨more, rfl, hmore⟩ := hreads.scans_rest (tokensOf_eq_ok_iff.1 hall)
    obtain ⟨p, hp, ⟨-, rfl⟩ | ⟨hlast, -⟩⟩ := hmore.passes
    · have hmoved := (parse_eq_behind_iff h (tokensOf_eq_ok_iff.1 hall)).1 hparse
      rw [helements] at hmoved
      refine ⟨p, hp, (elementsOf_eq (sourceOf_pass hp)).trans ?_⟩
      exact (List.map_inj_right fun e f => Element.moved_injective).1 hmoved
    · cases hlast
  · rintro ⟨p, hp, hfound⟩
    refine (parse_eq_behind_iff h (hreads.scans (scans_of_pass hp))).2 ?_
    rw [helements, ← elementsOf_eq (sourceOf_pass hp), hfound]

/-- In front of markup, a text without `<` moves the elements and does nothing else, exactly where
it holds no reference by number that is not well-formed, or where this does not matter: the last
pass, which follows such a reference, finds all elements if it comes to the markup, and there is none
if it does not. It comes there if a semicolon follows the reference and no other such reference
stands behind it. Moved elements have the texts that they had. -/
theorem parse_append_data (hdata : '<' ∉ t) (hmarkup : markup = [] ∨ ∃ z, markup = '<' :: z)
    (h : parse markup = .ok d) :
    (parse (t ++ markup) = .ok (d.behind t) ↔
      fromBroken t = [] ∨ ∃ r, fromBroken t = '&' :: '#' :: r ∧
        if ';' ∈ r ++ markup ∧ fromBroken r = [] then d.IsFoundAtOnce else d.elements = []) ∧
    ∀ e, (d.behind t).text (e.moved t.length) = d.text e := by
  refine ⟨?_, text_behind d t⟩
  rcases hmarkup with rfl | ⟨z, rfl⟩
  · obtain rfl : d = ⟨[], []⟩ := Except.ok.inj (h.symm.trans parse_nil.1)
    obtain ⟨tokens, hinert, hscans⟩ := exists_scans_data_end false hdata
    rw [parse_eq_behind_iff_of_allInert h hinert (by rwa [List.append_nil])]
    refine iff_of_true rfl ?_
    rcases fromBroken_cases t with hwhole | ⟨r, hr, -⟩
    · exact .inl hwhole
    · refine .inr ⟨r, hr, ?_⟩
      split
      · exact parse_nil.2
      · rfl
  · rcases fromBroken_cases t with hwhole | ⟨r, hr, -⟩
    · obtain ⟨tokens, hinert, hreads⟩ := exists_reads_data false hdata z
      rw [hwhole] at hreads
      exact iff_of_true (parse_behind_of_reads h hinert hreads) (.inl hwhole)
    · have hdata' : '<' ∉ r := fun hmem => hdata
        ((fromBroken_isSuffix t).mem (hr ▸ List.mem_cons_of_mem _ (List.mem_cons_of_mem _ hmem)))
      simp only [hr, reduceCtorEq, false_or, List.cons.injEq, true_and, exists_eq_left']
      split
      · rename_i hagain
        obtain ⟨front, hfront, hreads⟩ := exists_reads_data_again hdata hr hagain.1
        obtain ⟨tokens, hinert, hreads'⟩ := exists_reads_data true hdata' z
        rw [hagain.2] at hreads'
        exact parse_eq_behind_iff_of_reads h (hfront.append hinert) (hreads.trans hreads')
      · rename_i hover
        obtain ⟨tokens, hinert, hscans⟩ : ∃ tokens, AllInert tokens ∧
            Scans ⟨false, none, t ++ '<' :: z⟩ tokens := by
          by_cases hsemicolon : ';' ∈ r ++ '<' :: z
          · obtain ⟨front, hfront, hreads⟩ := exists_reads_data_again hdata hr hsemicolon
            obtain ⟨tokens, hinert, hscans⟩ :=
              exists_scans_data_broken hdata' (fun hwhole => hover ⟨hsemicolon, hwhole⟩) z
            exact ⟨_, hfront.append hinert, hreads.scans hscans⟩
          · exact exists_scans_data_stuck hdata hr hsemicolon
        exact parse_eq_behind_iff_of_allInert h hinert hscans

/-- A reference by name in front of a tag hides nothing; `&#` hides the tag. -/
theorem parse_append_data_paragraph :
    let markup := "<p>".toList
    ∃ d, parse markup = .ok d ∧ d.elements.map Element.tag = ["p".toList] ∧
      parse ("a&b".toList ++ markup) = .ok (d.behind "a&b".toList) ∧
      parse ("&#".toList ++ markup) ≠ .ok (d.behind "&#".toList) := by
  intro markup
  have hparse : (parse markup).toOption.map (fun d => d.elements.map Element.tag) =
      some ["p".toList] := by decide +kernel
  obtain ⟨d, hd, htags⟩ := Option.map_eq_some_iff.1 hparse
  have hd := eq_ok_of_toOption hd
  have hplain := parse_append_data (t := "a&b".toList) (by decide) (.inr ⟨_, rfl⟩) hd
  have hbroken := parse_append_data (t := "&#".toList) (by decide) (.inr ⟨_, rfl⟩) hd
  refine ⟨d, hd, htags, hplain.1.2 (.inl (by decide)), fun hsame => ?_⟩
  rcases hbroken.1.1 hsame with hnone | ⟨r, hr, hfound⟩
  · exact absurd hnone (by decide)
  · obtain rfl : r = [] := by
      have hr' : fromBroken "&#".toList = ['&', '#'] := by decide
      cases hr.symm.trans hr'
      rfl
    rw [if_neg (by decide)] at hfound
    rw [hfound] at htags
    cases htags

end AppendData

end Document

end PageSplice.Html

-- SUMMARY: Reading markup token by token, as a judgment: how readings compose, and where start tags stand.
import PageSplice.Proofs.Html.Nesting

/-!
# Reading

A scan makes two passes, and the second one begins where the first has stopped.
As a judgment, reading goes on from one place of the markup to another. What a
scan finds from a place on does not depend on how it got there, so two texts
that are read alike up to the same rest are read alike to their ends.
-/

namespace PageSplice.Html

structure Cursor where
  /-- Whether the scan is in its last pass. -/
  last : Bool
  /-- The raw text element whose body the place is in. -/
  raw : Option RawElement
  /-- The text from the place on. -/
  rest : Text

/-- The tokens of a text that a pass skips where it stops. -/
def skippedTokens (skipped : Text) : List Token := if skipped = [] then [] else [.inert skipped]

-- ---------------------------------------------------------------------------
-- Judgments
-- ---------------------------------------------------------------------------

/-- `Reads c tokens c'`: a scan comes from the place `c` to the place `c'` and reads `tokens`. -/
inductive Reads : Cursor → List Token → Cursor → Prop
  | refl (c : Cursor) : Reads c [] c
  | token {last : Bool} {raw : Option RawElement} {s rest : Text} {t : Token}
      {tokens : List Token} {c : Cursor} (hstep : step last raw s = .ok (.token t rest))
      (tail : Reads ⟨last, t.rawAfter raw, rest⟩ tokens c) : Reads ⟨last, raw, s⟩ (t :: tokens) c
  | again {raw : Option RawElement} {s skipped rest : Text} {tokens : List Token} {c : Cursor}
      (hstep : step false raw s = .ok (.stop skipped rest)) (tail : Reads ⟨true, raw, rest⟩ tokens c) :
      Reads ⟨false, raw, s⟩ (skippedTokens skipped ++ tokens) c

/-- `Scans c tokens`: from the place `c` on, a scan reads `tokens` up to its end. -/
inductive Scans : Cursor → List Token → Prop
  | token {last : Bool} {raw : Option RawElement} {s rest : Text} {t : Token}
      {tokens : List Token} (hstep : step last raw s = .ok (.token t rest))
      (tail : Scans ⟨last, t.rawAfter raw, rest⟩ tokens) : Scans ⟨last, raw, s⟩ (t :: tokens)
  | again {raw : Option RawElement} {s skipped rest : Text} {tokens : List Token}
      (hstep : step false raw s = .ok (.stop skipped rest)) (tail : Scans ⟨true, raw, rest⟩ tokens) :
      Scans ⟨false, raw, s⟩ (skippedTokens skipped ++ tokens)
  | done {raw : Option RawElement} {s skipped rest : Text}
      (hstep : step true raw s = .ok (.stop skipped rest)) :
      Scans ⟨true, raw, s⟩ (skippedTokens skipped ++ [.inert rest])

theorem Reads.trans {c c' c'' : Cursor} {tokens more : List Token} (h : Reads c tokens c')
    (h' : Reads c' more c'') : Reads c (tokens ++ more) c'' := by
  induction h with
  | refl => exact h'
  | token hstep _ ih => exact .token hstep (ih h')
  | again hstep _ ih =>
    rw [List.append_assoc]
    exact .again hstep (ih h')

theorem Reads.scans {c c' : Cursor} {tokens more : List Token} (h : Reads c tokens c')
    (h' : Scans c' more) : Scans c (tokens ++ more) := by
  induction h with
  | refl => exact h'
  | token hstep _ ih => exact .token hstep (ih h')
  | again hstep _ ih =>
    rw [List.append_assoc]
    exact .again hstep (ih h')

theorem Reads.single {last : Bool} {raw : Option RawElement} {s rest : Text} {t : Token}
    (hstep : step last raw s = .ok (.token t rest)) :
    Reads ⟨last, raw, s⟩ [t] ⟨last, t.rawAfter raw, rest⟩ :=
  .token hstep (.refl _)

theorem sourceOf_skippedTokens (skipped : Text) : sourceOf (skippedTokens skipped) = skipped := by
  unfold skippedTokens
  split
  · rename_i h
    exact h.symm
  · exact List.append_nil skipped

theorem sourceOf_append (tokens more : List Token) :
    sourceOf (tokens ++ more) = sourceOf tokens ++ sourceOf more :=
  List.flatMap_append

theorem sourceOf_cons (t : Token) (tokens : List Token) :
    sourceOf (t :: tokens) = t.source ++ sourceOf tokens :=
  List.flatMap_cons

/-- What has been read and what is left make up the text. -/
theorem Reads.source {c c' : Cursor} {tokens : List Token} (h : Reads c tokens c') :
    sourceOf tokens ++ c'.rest = c.rest := by
  induction h with
  | refl => rfl
  | token hstep _ ih =>
    obtain ⟨-, hcuts⟩ := step_cuts hstep
    rw [sourceOf_cons, List.append_assoc, ih, hcuts]
  | again hstep _ ih =>
    have hcuts := step_cuts hstep
    rw [sourceOf_append, sourceOf_skippedTokens, List.append_assoc, ih]
    exact hcuts

theorem Reads.length_le {c c' : Cursor} {tokens : List Token} (h : Reads c tokens c') :
    c'.rest.length ≤ c.rest.length := by
  rw [← h.source, List.length_append]
  exact Nat.le_add_left _ _

theorem Scans.source {c : Cursor} {tokens : List Token} (h : Scans c tokens) :
    sourceOf tokens = c.rest := by
  induction h with
  | token hstep _ ih =>
    obtain ⟨-, hcuts⟩ := step_cuts hstep
    rw [sourceOf_cons, ih, hcuts]
  | again hstep _ ih =>
    have hcuts := step_cuts hstep
    rw [sourceOf_append, sourceOf_skippedTokens, ih]
    exact hcuts
  | @done raw s skipped rest hstep =>
    have hcuts : skipped ++ rest = s := step_cuts hstep
    rw [sourceOf_append, sourceOf_skippedTokens, sourceOf_cons]
    exact (congrArg (skipped ++ ·) (List.append_nil rest)).trans hcuts

/-- A scan goes on from each place that it comes to. -/
theorem Reads.scans_rest {c c' : Cursor} {tokens all : List Token} (h : Reads c tokens c')
    (h' : Scans c all) : ∃ more, all = tokens ++ more ∧ Scans c' more := by
  induction h generalizing all with
  | refl => exact ⟨all, rfl, h'⟩
  | token hstep _ ih =>
    cases h' with
    | token hstep' tail' =>
      cases hstep.symm.trans hstep'
      obtain ⟨more, rfl, hmore⟩ := ih tail'
      exact ⟨more, rfl, hmore⟩
    | again hstep' _ => cases hstep.symm.trans hstep'
    | done hstep' => cases hstep.symm.trans hstep'
  | again hstep _ ih =>
    cases h' with
    | token hstep' _ => cases hstep.symm.trans hstep'
    | again hstep' tail' =>
      cases hstep.symm.trans hstep'
      obtain ⟨more, rfl, hmore⟩ := ih tail'
      exact ⟨more, (List.append_assoc _ _ _).symm, hmore⟩

-- ---------------------------------------------------------------------------
-- Scans and passes
-- ---------------------------------------------------------------------------

theorem pass_of_stop {last : Bool} {raw : Option RawElement} {s skipped rest : Text}
    (h : step last raw s = .ok (.stop skipped rest)) :
    pass last raw s = .ok ⟨skippedTokens skipped, raw, rest⟩ := by
  rw [pass]
  split
  · rename_i h'
    cases h.symm.trans h'
  · rename_i h'
    cases h.symm.trans h'
    rfl
  · rename_i h'
    cases h.symm.trans h'

theorem pass_of_token {last : Bool} {raw : Option RawElement} {s rest : Text} {t : Token}
    (h : step last raw s = .ok (.token t rest)) :
    pass last raw s =
      (pass last (t.rawAfter raw) rest).map fun p => ⟨t :: p.tokens, p.raw, p.rest⟩ := by
  rw [pass]
  split
  · rename_i h'
    cases h.symm.trans h'
  · rename_i h'
    cases h.symm.trans h'
  · rename_i h'
    cases h.symm.trans h'
    rfl

theorem scans_of_pass {raw : Option RawElement} {s : Text} {p : Pass}
    (h : pass true raw s = .ok p) : Scans ⟨true, raw, s⟩ (p.tokens ++ [.inert p.rest]) := by
  generalize hlast : true = last at h
  fun_induction pass last raw s generalizing p with
  | case1 => cases h
  | case2 raw s skipped rest hstep =>
    subst hlast
    cases h
    exact .done hstep
  | case3 raw s t rest hstep _ ih =>
    subst hlast
    obtain ⟨q, hq, rfl⟩ := exists_of_map_eq_ok h
    exact .token hstep (ih hq)

theorem scans_of_passes {raw : Option RawElement} {s : Text} {p : Pass} {tokens : List Token}
    (h : pass false raw s = .ok p) (tail : Scans ⟨true, p.raw, p.rest⟩ tokens) :
    Scans ⟨false, raw, s⟩ (p.tokens ++ tokens) := by
  generalize hlast : false = last at h
  fun_induction pass last raw s generalizing p with
  | case1 => cases h
  | case2 raw s skipped rest hstep =>
    subst hlast
    cases h
    exact .again hstep tail
  | case3 raw s t rest hstep _ ih =>
    subst hlast
    obtain ⟨q, hq, rfl⟩ := exists_of_map_eq_ok h
    exact .token hstep (ih tail hq)

theorem Scans.passes {c : Cursor} {tokens : List Token} (h : Scans c tokens) :
    ∃ p, pass c.last c.raw c.rest = .ok p ∧
      ((c.last = true ∧ tokens = p.tokens ++ [.inert p.rest]) ∨
        (c.last = false ∧ ∃ q, pass true p.raw p.rest = .ok q ∧
          tokens = p.tokens ++ (q.tokens ++ [.inert q.rest]))) := by
  induction h with
  | token hstep _ ih =>
    obtain ⟨p, hp, hends⟩ := ih
    refine ⟨_, by rw [pass_of_token hstep, hp]; rfl, ?_⟩
    rcases hends with ⟨hlast, rfl⟩ | ⟨hlast, q, hq, rfl⟩
    · exact .inl ⟨hlast, rfl⟩
    · exact .inr ⟨hlast, q, hq, rfl⟩
  | again hstep _ ih =>
    obtain ⟨q, hq, ⟨-, rfl⟩ | ⟨hlast, -⟩⟩ := ih
    · exact ⟨_, pass_of_stop hstep, .inr ⟨rfl, q, hq, rfl⟩⟩
    · cases hlast
  | done hstep => exact ⟨_, pass_of_stop hstep, .inl ⟨rfl, rfl⟩⟩

/-- The tokens of markup are what a scan reads from its beginning. -/
theorem tokensOf_eq_ok_iff {markup : Text} {tokens : List Token} :
    tokensOf markup = .ok tokens ↔ Scans ⟨false, none, markup⟩ tokens := by
  unfold tokensOf
  constructor
  · intro h
    cases hfirst : pass false none markup with
    | error e =>
      rw [hfirst] at h
      cases h
    | ok p =>
      rw [hfirst] at h
      cases hsecond : pass true p.raw p.rest with
      | error e =>
        have herror : (pass true p.raw p.rest >>= fun second =>
            pure (p.tokens ++ second.tokens ++ [Token.inert second.rest])) = .ok tokens := h
        rw [hsecond] at herror
        cases herror
      | ok q =>
        have hok : (pass true p.raw p.rest >>= fun second =>
            pure (p.tokens ++ second.tokens ++ [Token.inert second.rest])) = .ok tokens := h
        rw [hsecond] at hok
        cases hok
        rw [List.append_assoc]
        exact scans_of_passes hfirst (scans_of_pass hsecond)
  · intro h
    obtain ⟨p, hp, ⟨hlast, -⟩ | ⟨-, q, hq, rfl⟩⟩ := h.passes
    · cases hlast
    · have hp : pass false none markup = .ok p := hp
      simp only [hp, hq, bind, Except.bind, pure, Except.pure, List.append_assoc]

-- ---------------------------------------------------------------------------
-- Start tags
-- ---------------------------------------------------------------------------

/-- The start tags among tokens that begin at an offset, with their own offsets. -/
def starts (offset : Nat) : List Token → List (Nat × StartTag)
  | [] => []
  | .start tag :: tokens => (offset, tag) :: starts (offset + tag.source.length) tokens
  | t :: tokens => starts (offset + t.source.length) tokens

theorem starts_cons (offset : Nat) (t : Token) (tokens : List Token) :
    starts offset (t :: tokens) =
      (match t with | .start tag => [(offset, tag)] | _ => []) ++
        starts (offset + t.source.length) tokens := by
  cases t <;> rfl

theorem starts_append (offset : Nat) (tokens more : List Token) :
    starts offset (tokens ++ more) =
      starts offset tokens ++ starts (offset + (sourceOf tokens).length) more := by
  induction tokens generalizing offset with
  | nil => rfl
  | cons t rest ih =>
    rw [List.cons_append, starts_cons, starts_cons, ih, sourceOf_cons, List.length_append,
      Nat.add_assoc, List.append_assoc]

def Element.opening (e : Element) : Nat × StartTag := (e.start, e.startTag)

/-- The elements that reading tokens adds are those of the start tags among them. -/
theorem Outline.openings_foldl_read (o : Outline) (tokens : List Token) :
    (tokens.foldl Outline.read o).elements.map Element.opening =
      o.elements.map Element.opening ++ starts o.offset tokens := by
  have hmodify (elements : List Element) (i : Nat) (f : Element → Element)
      (hf : ∀ e, (f e).opening = e.opening) :
      (elements.modify i f).map Element.opening = elements.map Element.opening := by
    refine List.ext_getElem? fun j => ?_
    rw [List.getElem?_map, List.getElem?_map, List.getElem?_modify]
    cases elements[j]? with
    | none => rfl
    | some e =>
      refine congrArg some ?_
      dsimp only
      split
      · exact hf e
      · rfl
  induction tokens generalizing o with
  | nil => exact (List.append_nil _).symm
  | cons t rest ih =>
    rw [List.foldl_cons, ih, starts_cons]
    cases t with
    | inert source => rfl
    | start tag =>
      simp only [Outline.read, Outline.addElement_eq, List.map_append, List.append_assoc]
      congr 1
      unfold Outline.marked
      split
      · rfl
      · exact hmodify _ _ _ fun e => rfl
    | close name source =>
      rcases Outline.closeElement_cases o name source with heq | ⟨index, outer, -, heq⟩
      · simp only [Outline.read, heq]
        rfl
      · simp only [Outline.read, heq]
        rw [hmodify _ _ (fun e => { e with bodyEnd := some o.offset }) fun e => rfl]
        rfl

/-- A scan that finds a start tag has come to the place where the tag stands. -/
theorem Scans.split {c : Cursor} {tokens tail : List Token} {tag : StartTag}
    (h : Scans c (tokens ++ .start tag :: tail)) :
    ∃ last raw s rest, Reads c tokens ⟨last, raw, s⟩ ∧
      step last raw s = .ok (.token (.start tag) rest) ∧
      Scans ⟨last, (Token.start tag).rawAfter raw, rest⟩ tail := by
  generalize hall : tokens ++ .start tag :: tail = all at h
  induction h generalizing tokens with
  | @token last raw s rest t others hstep htail ih =>
    cases tokens with
    | nil =>
      cases hall
      exact ⟨last, raw, s, rest, .refl _, hstep, htail⟩
    | cons first tokens =>
      cases hall
      obtain ⟨last', raw', s', rest', hreads, hfound⟩ := ih rfl
      exact ⟨last', raw', s', rest', .token hstep hreads, hfound⟩
  | @again raw s skipped rest others hstep htail ih =>
    obtain ⟨tokens', rfl, hothers⟩ : ∃ tokens', tokens = skippedTokens skipped ++ tokens' ∧
        tokens' ++ .start tag :: tail = others := by
      by_cases hskipped : skipped = []
      · rw [skippedTokens, if_pos hskipped] at hall ⊢
        exact ⟨tokens, rfl, hall⟩
      · rw [skippedTokens, if_neg hskipped] at hall ⊢
        cases tokens with
        | nil => cases hall
        | cons first tokens =>
          cases hall
          exact ⟨tokens, rfl, rfl⟩
    obtain ⟨last', raw', s', rest', hreads, hfound⟩ := ih hothers
    exact ⟨last', raw', s', rest', .again hstep hreads, hfound⟩
  | @done raw s skipped rest hstep =>
    have hmem : Token.start tag ∈ skippedTokens skipped ++ [.inert rest] := by
      rw [← hall]
      exact List.mem_append_right _ List.mem_cons_self
    unfold skippedTokens at hmem
    split at hmem <;> simp at hmem

/-- The start tags in front of a start tag are those that stand in front of it among all. -/
theorem exists_split_of_starts {offset : Nat} {tokens : List Token}
    {before after : List (Nat × StartTag)} {n : Nat} {tag : StartTag}
    (h : starts offset tokens = before ++ (n, tag) :: after) :
    ∃ front tail, tokens = front ++ .start tag :: tail ∧ starts offset front = before ∧
      n = offset + (sourceOf front).length := by
  induction tokens generalizing offset before with
  | nil =>
    cases before <;> cases h
  | cons t rest ih =>
    have hlater (t : Token) {before' : List (Nat × StartTag)}
        (hbefore : before = (match t with | .start tag => [(offset, tag)] | _ => []) ++ before')
        (h : starts (offset + t.source.length) rest = before' ++ (n, tag) :: after) :
        ∃ front tail, t :: rest = front ++ .start tag :: tail ∧ starts offset front = before ∧
          n = offset + (sourceOf front).length := by
      obtain ⟨front, tail, rfl, hfront, hn⟩ := ih h
      refine ⟨t :: front, tail, rfl, ?_, ?_⟩
      · rw [starts_cons, hfront, hbefore]
      · rw [hn, sourceOf_cons, List.length_append, Nat.add_assoc]
    rw [starts_cons] at h
    cases t with
    | inert source => exact hlater (.inert source) rfl h
    | close name source => exact hlater (.close name source) rfl h
    | start first =>
      cases before with
      | nil =>
        cases h
        exact ⟨[], rest, rfl, rfl, rfl⟩
      | cons entry before =>
        obtain ⟨rfl, hrest⟩ := List.cons.inj h
        exact hlater (.start first) rfl hrest

end PageSplice.Html

-- SUMMARY: Cutting markup into tokens in two passes, and that the tokens make up the markup.
import PageSplice.Html.Token

/-!
# Scanning

Each step is faithful to the text it looks at: what it takes and what it leaves
make up that text. So a pass comes to an end, and the tokens of a whole scan,
put together, are the markup.
-/

namespace PageSplice.Html

-- ---------------------------------------------------------------------------
-- Steps cut the text
-- ---------------------------------------------------------------------------

theorem after?_isSuffix {c : Char} {s rest : Text} (h : Text.after? c s = some rest) :
    rest <:+ s := by
  unfold Text.after? at h
  split at h
  · simp at h
  · rename_i d r hd
    simp only [Option.some.injEq] at h
    subst h
    exact (List.suffix_cons d r).trans (hd ▸ List.dropWhile_suffix _)

theorem skipSemicolon_isSuffix (s : Text) : CharRef.skipSemicolon s <:+ s := by
  unfold CharRef.skipSemicolon
  split
  · exact List.suffix_cons _ _
  · exact List.suffix_refl _

theorem afterNumber?_isSuffix {s rest : Text} (h : afterNumber? s = some rest) : rest <:+ s := by
  unfold afterNumber? at h
  split at h
  · simp at h
  · rename_i c r
    split at h
    · split at h
      · simp at h
      · rename_i d t hd
        split at h
        · simp at h
        · simp only [Option.some.injEq] at h
          exact h ▸ (skipSemicolon_isSuffix _).trans (hd ▸ List.dropWhile_suffix _)
    · split at h
      · split at h
        · simp at h
        · rename_i d t hd
          simp only [Option.some.injEq] at h
          exact h ▸ ((skipSemicolon_isSuffix _).trans (hd ▸ List.dropWhile_suffix _)).trans
            (List.suffix_cons c r)
      · simp at h

theorem afterEntity?_isSuffix {s rest : Text} (h : afterEntity? s = some rest) : rest <:+ s := by
  unfold afterEntity? at h
  split at h
  · split at h
    · simp only at h
      split at h
      · simp only [Option.some.injEq] at h
        exact h ▸ List.drop_suffix _ _
      · simp at h
    · rename_i d t hd
      simp only [Option.some.injEq] at h
      exact h ▸ (skipSemicolon_isSuffix _).trans (hd ▸ List.dropWhile_suffix _)
  · simp at h

theorem ampersandStep_cuts (last : Bool) (s : Text) : (ampersandStep last s).Cuts ('&' :: s) := by
  unfold ampersandStep
  split
  · rename_i r
    split
    · rename_i h
      exact Step.cuts_inert_cons ((afterNumber?_isSuffix h).trans (List.suffix_cons _ _))
    · split <;> simp [Step.Cuts]
  · split
    · rename_i h
      exact Step.cuts_inert_cons (afterEntity?_isSuffix h)
    · split
      · simp [Step.Cuts]
      · split
        · split <;> simp [Step.Cuts]
        · exact Step.cuts_inert_cons (List.suffix_refl _)

theorem blanksThenClose?_isSuffix {s rest : Text} (h : blanksThenClose? s = some rest) :
    rest <:+ s := by
  unfold blanksThenClose? at h
  split at h
  · rename_i r hr
    simp only [Option.some.injEq] at h
    subst h
    exact (List.suffix_cons _ _).trans (hr ▸ List.dropWhile_suffix _)
  · simp at h

theorem commentEnd?_isSuffix {s rest : Text} (h : commentEnd? s = some rest) : rest <:+ s := by
  unfold commentEnd? at h
  split at h
  · exact (blanksThenClose?_isSuffix h).trans
      ((List.suffix_cons _ _).trans (List.suffix_cons _ _))
  · simp at h

theorem conditionalEnd?_isSuffix {s rest : Text} (h : conditionalEnd? s = some rest) :
    rest <:+ s := by
  unfold conditionalEnd? at h
  split at h
  · exact (blanksThenClose?_isSuffix h).trans (List.suffix_cons _ _)
  · simp at h

theorem sectionEnd?_isSuffix {s rest : Text} (h : sectionEnd? s = some rest) : rest <:+ s := by
  unfold sectionEnd? at h
  split at h
  · exact ((conditionalEnd?_isSuffix h).trans (List.dropWhile_suffix _)).trans
      (List.suffix_cons _ _)
  · simp at h

theorem afterSection?_isSuffix {markup s rest : Text}
    (h : afterSection? markup s = .ok (some rest)) : rest <:+ s := by
  unfold afterSection? at h
  split at h
  · simp at h
  · split at h
    · simp at h
    · simp only at h
      split at h
      · simp at h
      · split at h
        · simp only [Except.ok.injEq] at h
          exact Text.search_isSuffix (fun h => sectionEnd?_isSuffix h) h
        · split at h
          · simp only [Except.ok.injEq] at h
            exact Text.search_isSuffix (fun h => conditionalEnd?_isSuffix h) h
          · simp at h

theorem afterDeclaration?_isSuffix {s rest : Text} (h : afterDeclaration? s = .ok (some rest)) :
    rest <:+ s := by
  unfold afterDeclaration? at h
  split at h
  · simp only [Except.ok.injEq] at h
    exact (Text.search_isSuffix (fun h => commentEnd?_isSuffix h) h).trans
      ((List.suffix_cons _ _).trans (List.suffix_cons _ _))
  · exact (afterSection?_isSuffix h).trans (List.suffix_cons _ _)
  · simp only [Except.ok.injEq] at h
    exact after?_isSuffix h

theorem closeStep?_cuts {s : Text} {st : Step} (h : closeStep? s = some st) :
    st.Cuts ('<' :: '/' :: s) := by
  unfold closeStep? at h
  obtain ⟨rest, hrest, hst⟩ := Option.map_eq_some_iff.1 h
  have hsuffix : rest <:+ '/' :: s := (after?_isSuffix hrest).trans (List.suffix_cons _ _)
  have hcuts := Step.cuts_inert_cons (c := '<') hsuffix
  simp only at hst
  split at hst <;> (subst hst; exact hcuts)

theorem startStep?_cuts {s : Text} {st : Step} (h : startStep? s = .ok (some st)) :
    st.Cuts ('<' :: s) := by
  have hhead := StartTag.scanHead_isSuffix s
  unfold startStep? at h
  simp only at h
  split at h
  · simp at h
  · rename_i rest hrest
    have hsuffix : rest <:+ s := (List.suffix_cons _ _).trans (hrest ▸ hhead)
    split at h
    · simp at h
    · simp only [Except.ok.injEq, Option.some.injEq] at h
      subst h
      exact ⟨List.cons_ne_nil _ _, congrArg ('<' :: ·) (Text.upTo_append hsuffix)⟩
  · rename_i rest hrest
    have hsuffix : rest <:+ s :=
      ((List.suffix_cons _ _).trans (List.suffix_cons _ _)).trans (hrest ▸ hhead)
    split at h
    · simp at h
    · simp only [Except.ok.injEq, Option.some.injEq] at h
      subst h
      exact ⟨List.cons_ne_nil _ _, congrArg ('<' :: ·) (Text.upTo_append hsuffix)⟩
  · rename_i c rest _ hrest
    split at h
    · simp at h
    · split at h
      · simp at h
      · simp only [Except.ok.injEq, Option.some.injEq] at h
        subst h
        exact Step.cuts_inert_cons (hrest ▸ hhead)

theorem unfinishedStep_cuts (s : Text) : (unfinishedStep s).Cuts ('<' :: s) := by
  unfold unfinishedStep
  split
  · rename_i h
    exact Step.cuts_inert_cons (after?_isSuffix h)
  · split
    · exact Step.cuts_inert_cons (List.suffix_refl _)
    · exact Step.cuts_inert_cons (List.dropWhile_suffix _)

theorem exists_of_map_eq_ok {ε α β : Type} {f : α → β} {x : Except ε α} {b : β}
    (h : x.map f = .ok b) : ∃ a, x = .ok a ∧ f a = b := by
  cases x with
  | error => simp [Except.map] at h
  | ok a => exact ⟨a, rfl, by simpa [Except.map] using h⟩

theorem markupStep?_cuts {s : Text} {st : Step} (h : markupStep? s = .ok (some st)) :
    st.Cuts ('<' :: s) := by
  unfold markupStep? at h
  split at h
  · simp only [Except.ok.injEq, Option.some.injEq] at h
    subst h
    simp [Step.Cuts]
  · rename_i c r
    split at h
    · exact startStep?_cuts h
    · split at h
      · rename_i hc
        subst hc
        simp only [Except.ok.injEq] at h
        exact closeStep?_cuts h
      · split at h
        · simp only [Except.ok.injEq] at h
          obtain ⟨rest, hrest, rfl⟩ := Option.map_eq_some_iff.1 h
          exact Step.cuts_inert_cons ((after?_isSuffix hrest).trans (List.suffix_cons _ _))
        · split at h
          · obtain ⟨found, hfound, hmap⟩ := exists_of_map_eq_ok h
            obtain ⟨rest, rfl, rfl⟩ := Option.map_eq_some_iff.1 hmap
            exact Step.cuts_inert_cons
              ((afterDeclaration?_isSuffix hfound).trans (List.suffix_cons _ _))
          · simp only [Except.ok.injEq, Option.some.injEq] at h
            subst h
            exact Step.cuts_inert_cons (List.suffix_refl _)

theorem plainStep_cuts {last : Bool} {s : Text} {st : Step} (h : plainStep last s = .ok st) :
    st.Cuts s := by
  unfold plainStep at h
  split at h
  · simp only [Except.ok.injEq] at h
    subst h
    simp [Step.Cuts]
  · rename_i c r
    split at h
    · rename_i hc
      subst hc
      obtain ⟨found, hfound, hst⟩ := exists_of_map_eq_ok h
      cases found with
      | some step => exact hst ▸ markupStep?_cuts hfound
      | none =>
        cases last with
        | true => exact hst ▸ unfinishedStep_cuts r
        | false => subst hst; simp [Step.Cuts]
    · split at h
      · rename_i hc
        subst hc
        simp only [Except.ok.injEq] at h
        exact h ▸ ampersandStep_cuts last r
      · simp only [Except.ok.injEq] at h
        exact h ▸ Step.cuts_inert_cons (List.dropWhile_suffix _)

theorem rawEnd?_isSuffix {raw : RawElement} {s found : Text} (h : rawEnd? raw s = some found) :
    found <:+ s := by
  refine Text.search_isSuffix ?_ h
  intro s rest h
  split at h
  · simp only [Option.some.injEq] at h
    exact h ▸ List.suffix_refl _
  · simp at h

theorem rawStep_cuts (raw : RawElement) (s : Text) : (rawStep raw s).Cuts s := by
  unfold rawStep
  split
  · simp [Step.Cuts]
  · rename_i found hfound
    split
    · rename_i hlt
      exact Step.cuts_inert (rawEnd?_isSuffix hfound) hlt
    · split
      · simp [Step.Cuts]
      · rename_i c rest hrest
        have hdrop : c :: rest <:+ s :=
          (hrest ▸ List.dropWhile_suffix _).trans (List.drop_suffix _ _)
        have hsuffix : rest <:+ s := (List.suffix_cons _ _).trans hdrop
        have hlt : rest.length < s.length := Nat.lt_of_succ_le hdrop.length_le
        have hcuts := Step.cuts_inert hsuffix hlt
        split <;> exact hcuts

/-- Every step takes a part from the front of the text and leaves the rest as it is. -/
theorem step_cuts {last : Bool} {raw : Option RawElement} {s : Text} {st : Step}
    (h : step last raw s = .ok st) : st.Cuts s := by
  cases raw with
  | none => exact plainStep_cuts h
  | some raw => exact Except.ok.inj h ▸ rawStep_cuts raw s

theorem length_lt_of_step {last : Bool} {raw : Option RawElement} {s rest : Text} {t : Token}
    (h : step last raw s = .ok (.token t rest)) : rest.length < s.length := by
  obtain ⟨hne, happ⟩ := step_cuts h
  have := congrArg List.length happ
  have := List.length_pos_iff.2 hne
  simp only [List.length_append] at *
  omega

-- ---------------------------------------------------------------------------
-- Passes
-- ---------------------------------------------------------------------------

structure Pass where
  tokens : List Token
  /-- The raw text element whose body the pass stopped in. -/
  raw : Option RawElement
  rest : Text

/-- Cuts tokens off `s` until a step stops. -/
def pass (last : Bool) (raw : Option RawElement) (s : Text) : Except ScanError Pass :=
  match h : step last raw s with
  | .error e => .error e
  | .ok (.stop skipped rest) => .ok ⟨if skipped = [] then [] else [.inert skipped], raw, rest⟩
  | .ok (.token t rest) =>
    have := length_lt_of_step h
    (pass last (t.rawAfter raw) rest).map fun p => ⟨t :: p.tokens, p.raw, p.rest⟩
termination_by s.length

def sourceOf (tokens : List Token) : Text := tokens.flatMap Token.source

theorem sourceOf_pass {last : Bool} {raw : Option RawElement} {s : Text} {p : Pass}
    (h : pass last raw s = .ok p) : sourceOf p.tokens ++ p.rest = s := by
  fun_induction pass last raw s generalizing p with
  | case1 => simp at h
  | case2 raw s skipped rest hstep =>
    simp only [Except.ok.injEq] at h
    subst h
    have hcuts : skipped ++ rest = s := step_cuts hstep
    by_cases hskip : skipped = []
    · simpa [sourceOf, hskip] using hcuts
    · simpa [sourceOf, hskip, Token.source] using hcuts
  | case3 raw s t rest hstep _ ih =>
    obtain ⟨q, hq, rfl⟩ := exists_of_map_eq_ok h
    have happ := (step_cuts hstep).2
    have htail := ih hq
    simp only [sourceOf, List.flatMap_cons, List.append_assoc] at htail ⊢
    rw [htail, happ]

def tokensOf (markup : Text) : Except ScanError (List Token) := do
  let first ← pass false none markup
  let second ← pass true first.raw first.rest
  return first.tokens ++ second.tokens ++ [.inert second.rest]

/-- No character of the markup is lost or added. -/
theorem sourceOf_tokensOf {markup : Text} {tokens : List Token}
    (h : tokensOf markup = .ok tokens) : sourceOf tokens = markup := by
  unfold tokensOf at h
  cases hfirst : pass false none markup with
  | error e => simp [hfirst, bind, Except.bind] at h
  | ok first =>
    cases hsecond : pass true first.raw first.rest with
    | error e => simp [hfirst, hsecond, bind, Except.bind] at h
    | ok second =>
      simp only [hfirst, hsecond, bind, Except.bind, pure, Except.pure, Except.ok.injEq] at h
      subst h
      have h₁ := sourceOf_pass hfirst
      have h₂ := sourceOf_pass hsecond
      simp only [sourceOf, List.flatMap_append, List.flatMap_cons, List.flatMap_nil, Token.source,
        List.append_nil] at h₁ h₂ ⊢
      rw [List.append_assoc, h₂, h₁]

end PageSplice.Html

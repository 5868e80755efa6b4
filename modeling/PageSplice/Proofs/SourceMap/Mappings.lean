-- SUMMARY: Reading what source maps write: integers in digits of five bits, and the mappings of line maps.
import Mathlib.Data.Nat.Digits.Defs
import PageSplice.Proofs.Path
import PageSplice.SourceMap.Line
import PageSplice.SourceMap.Mappings

/-!
# Written mappings

An integer is written in digits that say themselves where they end, so integers
that are written one behind the other are read back one by one. A line map
writes one segment for each generated line, and each segment counts its source
line from that of the segment before; what is read back is the place itself.
-/

namespace PageSplice.SourceMap

-- ---------------------------------------------------------------------------
-- Written integers
-- ---------------------------------------------------------------------------

namespace Vlq

/-- Whether digits write a number: each has five bits of it, the lowest come first, and every digit but
the last has the bit that says that another one follows. -/
def Writes (digits : Text) (n : Nat) : Prop :=
  ∃ front last, digits = (front ++ [last]).map Base64.digit ∧
    (∀ group ∈ front, 32 ≤ group ∧ group < 64) ∧ last < 32 ∧
    Nat.ofDigits 32 ((front ++ [last]).map (· % 32)) = n

theorem writes_groups (n : Nat) : Writes ((groups n).map Base64.digit) n := by
  fun_induction groups n with
  | case1 n hlast =>
    refine ⟨[], n, rfl, List.forall_mem_nil _, hlast, ?_⟩
    simp [Nat.mod_eq_of_lt hlast]
  | case2 n _ ih =>
    obtain ⟨front, last, hdigits, hfront, hlast, hvalue⟩ := ih
    refine ⟨(n % 32 + 32) :: front, last, ?_, List.forall_mem_cons.2 ⟨?_, hfront⟩, hlast, ?_⟩
    · rw [List.map_cons, hdigits]
      rfl
    · omega
    · rw [List.cons_append, List.map_cons, Nat.ofDigits_cons, hvalue]
      omega

theorem of_value? {c : Char} {group : Nat} (h : Base64.value? c = some group) :
    group < 64 ∧ c = Base64.digit group := by
  obtain ⟨hlt, hdigit, -⟩ := List.idxOf?_eq_some_iff.1 h
  refine ⟨hlt, ?_⟩
  rw [Base64.digit, List.getD_eq_getElem?_getD, List.getElem?_eq_getElem hlt, hdigit]
  rfl

/-- What is read off the front of a text are the digits that write a number, up to the one that says
that it is the last. -/
theorem readGroups?_eq_some_iff {s rest : Text} {n : Nat} :
    readGroups? s = some (n, rest) ↔ ∃ digits, s = digits ++ rest ∧ Writes digits n := by
  constructor
  · intro h
    induction s generalizing n with
    | nil => cases h
    | cons c r ih =>
      rw [readGroups?] at h
      cases hgroup : Base64.value? c with
      | none =>
        rw [hgroup] at h
        cases h
      | some group =>
        obtain ⟨hlt, rfl⟩ := of_value? hgroup
        simp only [hgroup] at h
        by_cases hlast : group < 32
        · rw [if_pos hlast] at h
          cases h
          refine ⟨[Base64.digit n], rfl, [], n, rfl, List.forall_mem_nil _, hlast, ?_⟩
          simp [Nat.mod_eq_of_lt hlast]
        · rw [if_neg hlast] at h
          obtain ⟨⟨m, rest'⟩, hread, hpair⟩ := Option.map_eq_some_iff.1 h
          cases hpair
          obtain ⟨digits, rfl, front, last, rfl, hfront, hend, rfl⟩ := ih hread
          refine ⟨Base64.digit group :: _, rfl, group :: front, last, rfl,
            List.forall_mem_cons.2 ⟨⟨Nat.le_of_not_lt hlast, hlt⟩, hfront⟩, hend, ?_⟩
          rw [List.cons_append, List.map_cons, Nat.ofDigits_cons]
  · rintro ⟨digits, rfl, front, last, rfl, hfront, hlast, rfl⟩
    induction front with
    | nil =>
      simp [readGroups?, Base64.value?_digit (show last < 64 by omega), hlast,
        Nat.mod_eq_of_lt hlast]
    | cons group front ih =>
      obtain ⟨⟨hmore, hlt⟩, hfront⟩ := List.forall_mem_cons.1 hfront
      rw [List.cons_append, List.map_cons, List.map_cons, Nat.ofDigits_cons, List.cons_append,
        readGroups?, Base64.value?_digit hlt]
      simp only [if_neg (Nat.not_lt.2 hmore), ih hfront, Option.map_some]

theorem decode?_eq_some_iff {s rest : Text} {v : Int} :
    decode? s = some (v, rest) ↔
      ∃ digits n, s = digits ++ rest ∧ Writes digits n ∧ v = unfoldSign n := by
  unfold decode?
  constructor
  · intro h
    obtain ⟨⟨n, rest'⟩, hread, hpair⟩ := Option.map_eq_some_iff.1 h
    cases hpair
    obtain ⟨digits, hs, hwrites⟩ := readGroups?_eq_some_iff.1 hread
    exact ⟨digits, n, hs, hwrites, rfl⟩
  · rintro ⟨digits, n, hs, hwrites, rfl⟩
    rw [readGroups?_eq_some_iff.2 ⟨digits, hs, hwrites⟩]
    rfl

/-- The digits of an integer write its magnitude, behind its sign in the lowest bit. -/
theorem writes_encode (v : Int) :
    Writes (encode v) (2 * v.natAbs + if v < 0 then 1 else 0) :=
  writes_groups (foldSign v)

theorem encode_ne_nil (v : Int) : encode v ≠ [] := by
  obtain ⟨front, last, hdigits, -⟩ := writes_encode v
  rw [hdigits, List.map_append]
  exact List.append_ne_nil_of_right_ne_nil _ (List.cons_ne_nil _ _)

theorem mem_alphabet_of_mem_encode {c : Char} {v : Int} (h : c ∈ encode v) :
    c ∈ Base64.alphabet := by
  obtain ⟨group, -, rfl⟩ := List.mem_map.1 h
  unfold Base64.digit
  rw [List.getD_eq_getElem?_getD]
  cases hdigit : Base64.alphabet[group]? with
  | none => decide
  | some digit => exact List.mem_of_getElem? hdigit

/-- What is written ends where it says, whatever stands behind. -/
theorem eq_of_encode_append_eq {v w : Int} {s t : Text} (h : encode v ++ s = encode w ++ t) :
    v = w ∧ s = t := by
  have hread := decode?_encode_append v s
  rw [h, decode?_encode_append w t] at hread
  exact Prod.mk.inj (Option.some.inj hread).symm

theorem encode_injective : Function.Injective encode := fun _ _ h =>
  (eq_of_encode_append_eq (congrArg (· ++ []) h)).1

end Vlq

theorem Mappings.fields?_encode_append (v : Int) (s : Text) :
    fields? (Vlq.encode v ++ s) = (fields? s).map (v :: ·) := by
  have hnonempty : (Vlq.encode v ++ s).isEmpty = false := by
    simp [Vlq.encode_ne_nil]
  rw [fields?, hnonempty, if_neg Bool.false_ne_true]
  split
  · rename_i hread
    rw [Vlq.decode?_encode_append] at hread
    cases hread
    rfl
  · rename_i hread
    rw [Vlq.decode?_encode_append] at hread
    cases hread

theorem Mappings.fields?_flatMap_encode (vs : List Int) :
    fields? (vs.flatMap Vlq.encode) = some vs := by
  induction vs with
  | nil =>
    rw [List.flatMap_nil, fields?]
    rfl
  | cons v vs ih =>
    rw [List.flatMap_cons, fields?_encode_append, ih]
    rfl

/-- Integers of any size are read back from their digits, and what stands behind them is left. The
digits of an integer end where they say, so no two integers have the same ones, and integers that are
written one behind the other are read back one by one. -/
theorem Vlq.selfDelimiting_encode :
    (∀ (s rest : Text) (v : Int), decode? s = some (v, rest) ↔
      ∃ digits n, s = digits ++ rest ∧ Writes digits n ∧ v = unfoldSign n) ∧
    (∀ v : Int, Writes (encode v) (2 * v.natAbs + if v < 0 then 1 else 0)) ∧
    (∀ (v : Int) (s : Text), decode? (encode v ++ s) = some (v, s)) ∧
    (∀ (v w : Int) (s t : Text), encode v ++ s = encode w ++ t → v = w ∧ s = t) ∧
    Function.Injective encode ∧
    ∀ vs : List Int, Mappings.fields? (vs.flatMap encode) = some vs :=
  ⟨fun _ _ _ => decode?_eq_some_iff, writes_encode, decode?_encode_append,
    fun _ _ _ _ => eq_of_encode_append_eq, encode_injective, Mappings.fields?_flatMap_encode⟩

-- ---------------------------------------------------------------------------
-- Line maps
-- ---------------------------------------------------------------------------

theorem length_splitBy (p : Char → Bool) (s : Text) :
    (Text.splitBy p s).length = s.countP p + 1 := by
  induction s with
  | nil => rfl
  | cons c r ih =>
    rw [Text.splitBy, List.countP_cons]
    cases p c <;> simp [ih]

theorem length_lines (s : Text) : (Text.splitOn '\n' s).length = lineEnds s + 1 := by
  rw [Text.splitOn, length_splitBy, lineEnds, List.count]
  rfl

/-- The segment that takes the source line one step further and leaves all else as it is. -/
def stepSegment (step : Int) : Text := "AA".toList ++ Vlq.encode step ++ "A".toList

theorem fields?_stepSegment (step : Int) :
    Mappings.fields? (stepSegment step) = some [0, 0, step, 0] := by
  have hzero : Vlq.encode 0 = "A".toList := by
    rw [Vlq.encode, Vlq.foldSign, Vlq.groups]
    decide
  have hfields : stepSegment step = [0, 0, step, 0].flatMap Vlq.encode := by
    simp [stepSegment, hzero]
  rw [hfields, Mappings.fields?_flatMap_encode]

theorem mem_alphabet_of_mem_stepSegment {step : Int} :
    ∀ c ∈ stepSegment step, c ∈ Base64.alphabet := by
  have hends (s : Text) (h : s.all (· = 'A')) : ∀ c ∈ s, c ∈ Base64.alphabet := fun c hc => by
    rw [of_decide_eq_true (List.all_eq_true.1 h c hc)]
    decide
  intro c hc
  rcases List.mem_append.1 hc with hc | hc
  · rcases List.mem_append.1 hc with hc | hc
    · exact hends "AA".toList rfl c hc
    · exact Vlq.mem_alphabet_of_mem_encode hc
  · exact hends "A".toList rfl c hc

theorem exists_stepSegment_of_mem {last line previous count : Nat} {segment : Text}
    (h : segment ∈ lineSegments last line previous count) : ∃ step, segment = stepSegment step := by
  induction count generalizing line previous with
  | zero => cases h
  | succ count ih =>
    rcases List.mem_cons.1 h with rfl | h
    · exact ⟨_, rfl⟩
    · exact ih h

theorem splitOn_stepSegment {separator : Char} (h : separator ∉ Base64.alphabet) (step : Int) :
    Text.splitOn separator (stepSegment step) = [stepSegment step] :=
  Text.splitOn_of_not_mem fun hmem => h (mem_alphabet_of_mem_stepSegment _ hmem)

/-- The cursor behind a line of one such segment. -/
def Mappings.Cursor.afterStep (c : Mappings.Cursor) (step : Int) : Mappings.Cursor :=
  { c with column := 0 }.move 0 0 step 0

theorem segments?_stepSegment (step : Int) (c : Mappings.Cursor) :
    Mappings.segments? { c with column := 0 } [stepSegment step] =
      some ([{ column := 0, position := some (c.afterStep step).position }], c.afterStep step) := by
  simp only [Mappings.segments?, fields?_stepSegment, Option.bind_eq_bind, Option.bind_some]
  rfl

/-- A line of one such segment is at column 0, and at the place in the sources where the cursor is left. -/
theorem lines?_stepSegment_cons (step : Int) (rest : List Text) (c : Mappings.Cursor) :
    Mappings.lines? c (stepSegment step :: rest) =
      (Mappings.lines? (c.afterStep step) rest).map
        ([{ column := 0, position := some (c.afterStep step).position }] :: ·) := by
  have hnonempty : (stepSegment step).isEmpty = false := by simp [stepSegment]
  rw [Mappings.lines?, hnonempty, if_neg Bool.false_ne_true, splitOn_stepSegment (by decide),
    segments?_stepSegment]
  cases hrest : Mappings.lines? (c.afterStep step) rest with
  | none => simp [hrest]
  | some lines => simp [hrest]

/-- Each segment is read as the place that it was written for: the segment before has left the cursor
at the source line that the step begins from. -/
theorem lines?_lineSegments (last line count : Nat) {previous : Nat} {c : Mappings.Cursor}
    (hc : c.position = ⟨0, previous, 0⟩) :
    Mappings.lines? c (lineSegments last line previous count) =
      some ((List.range' line count).map fun i =>
        [{ column := 0, position := some ⟨0, (min i last : Nat), 0⟩ }]) := by
  induction count generalizing line previous c with
  | zero => rfl
  | succ count ih =>
    have hnext : (c.afterStep ((min line last : Nat) - previous)).position =
        ⟨0, (min line last : Nat), 0⟩ := by
      simp [Mappings.Cursor.afterStep, Mappings.Cursor.move, hc]
    refine (lines?_stepSegment_cons _ _ c).trans ?_
    rw [hnext, ih (line + 1) hnext, List.range'_succ]
    rfl

theorem splitOn_joinWith_lineSegments (last line previous count : Nat) :
    Text.splitOn ';' (Text.joinWith ";".toList (lineSegments last line previous (count + 1))) =
      lineSegments last line previous (count + 1) := by
  rw [Text.splitOn_eq]
  refine List.splitOn_intercalate ';' (fun segment hsegment hmem => ?_) (List.cons_ne_nil _ _)
  obtain ⟨step, rfl⟩ := exists_stepSegment_of_mem hsegment
  exact absurd (mem_alphabet_of_mem_stepSegment _ hmem) (by decide)

/-- A line map has one segment for each generated line, which is at column 0 of the line and leads to
column 0 of the same line of its one source, or of the last one where the source has fewer lines. No
segment leads behind the last line of the source. -/
theorem decode?_lineMappings (generated source name : Text) :
    ∃ mappings lines,
      (ofLines generated source name).lookup "mappings".toList = some (.str mappings) ∧
      Mappings.decode? mappings = some lines ∧
      lines = (Text.splitOn '\n' generated).mapIdx (fun i _ =>
        [{ column := 0, position := some ⟨0, (min i (lineEnds source) : Nat), 0⟩ }]) ∧
      ∀ line ∈ lines, ∀ segment ∈ line, ∃ i < (Text.splitOn '\n' source).length,
        segment.position = some ⟨0, i, 0⟩ := by
  refine ⟨lineMappings generated source, _, rfl, ?_, rfl, fun line hline segment hsegment => ?_⟩
  · rw [Mappings.decode?, lineMappings, splitOn_joinWith_lineSegments, lines?_lineSegments _ _ _ rfl,
      ← length_lines]
    refine congrArg some (List.ext_getElem (by simp) fun i _ _ => ?_)
    simp
  · obtain ⟨i, -, rfl⟩ := List.mem_mapIdx.1 hline
    rw [List.mem_singleton.1 hsegment, length_lines]
    exact ⟨min i (lineEnds source), Nat.lt_succ_of_le (Nat.min_le_right _ _), rfl⟩

example :
    Mappings.decode? (lineMappings "a\nb\nc".toList "x\ny".toList) =
      some [[⟨0, some ⟨0, 0, 0⟩, none⟩], [⟨0, some ⟨0, 1, 0⟩, none⟩], [⟨0, some ⟨0, 1, 0⟩, none⟩]] := by
  decide +kernel

end PageSplice.SourceMap

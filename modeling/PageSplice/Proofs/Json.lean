-- SUMMARY: Values whose numbers are integers are read back from the text that is printed for them.
import Mathlib.Data.List.Basic
import PageSplice.Json.Printer
import PageSplice.Json.Reader

/-!
# Reading what is printed

The reader undoes the printer: on every value that is printed and whose numbers
are integers it gives the value back, with the members of objects in their order.
Each lemma about a
piece of a text lets anything come behind the piece that can come there. What
comes behind a number matters: a comma or a closing bracket does, a further digit
does not.
-/

namespace PageSplice

-- ---------------------------------------------------------------------------
-- Numerals
-- ---------------------------------------------------------------------------

namespace Text

theorem hexValue_digitChar {n : Nat} (h : n < 16) : toNat.hexValue n.digitChar = n := by
  have hall : ∀ n : Fin 16, toNat.hexValue n.val.digitChar = n := by decide
  exact hall ⟨n, h⟩

theorem isHexDigit_digitChar {n : Nat} (h : n < 16) : isHexDigit n.digitChar = true := by
  have hall : ∀ n : Fin 16, isHexDigit n.val.digitChar = true := by decide
  exact hall ⟨n, h⟩

/-- A numeral is read back as the number, in any base up to sixteen. -/
theorem toNat_toDigits {base : Nat} (hbase : 1 < base) (hle : base ≤ 16) (n : Nat) :
    toNat base (Nat.toDigits base n) = n := by
  induction n using Nat.strongRecOn with
  | ind n ih =>
    rw [Nat.toDigits_eq_if hbase]
    split
    · rename_i hlt
      rw [toNat, List.foldl_cons, List.foldl_nil, hexValue_digitChar (by omega)]
      omega
    · rename_i hge
      have hlt : n % base < base := Nat.mod_lt _ (by omega)
      have hdiv : n / base < n := Nat.div_lt_self (by omega) hbase
      have hfront := ih _ hdiv
      rw [toNat] at hfront ⊢
      rw [List.foldl_append, hfront, List.foldl_cons, List.foldl_nil, hexValue_digitChar (by omega)]
      exact Nat.div_add_mod' n base

theorem isHexDigit_of_mem_toDigits {n : Nat} {c : Char} (h : c ∈ Nat.toDigits 16 n) :
    isHexDigit c = true := by
  induction n using Nat.strongRecOn with
  | ind n ih =>
    rw [Nat.toDigits_eq_if (by decide)] at h
    split at h
    · rename_i hlt
      rw [List.mem_singleton.1 h]
      exact isHexDigit_digitChar hlt
    · rename_i hge
      rcases List.mem_append.1 h with h | h
      · exact ih _ (Nat.div_lt_self (by omega) (by decide)) h
      · rw [List.mem_singleton.1 h]
        exact isHexDigit_digitChar (Nat.mod_lt _ (by decide))

theorem isDigit_of_mem_ofNat {n : Nat} {c : Char} (h : c ∈ ofNat n) : c.isDigit = true :=
  Nat.isDigit_of_mem_toDigits (by decide) (by decide) h

/-- Only the numeral of zero begins with a zero. -/
theorem head?_ofNat {n : Nat} (h : 0 < n) : (ofNat n).head? ≠ some '0' := by
  induction n using Nat.strongRecOn with
  | ind n ih =>
    rw [ofNat, Nat.toDigits_eq_if (by decide)]
    split
    · rename_i hlt
      have hall : ∀ n : Fin 10, 0 < n.val → n.val.digitChar ≠ '0' := by decide
      exact fun heq => hall ⟨n, hlt⟩ h (Option.some.inj heq)
    · rename_i hge
      rw [List.head?_append_of_ne_nil _ Nat.toDigits_ne_nil]
      exact ih _ (Nat.div_lt_self h (by decide)) (Nat.div_pos (by omega) (by decide))

theorem toNat_replicate_append (base k : Nat) (digits : Text) :
    toNat base (List.replicate k '0' ++ digits) = toNat base digits := by
  induction k with
  | zero => rfl
  | succ k ih =>
    rw [← ih, List.replicate_succ, toNat, toNat, List.cons_append, List.foldl_cons, Nat.zero_mul,
      Nat.zero_add]
    rfl

/-- A code unit has four hexadecimal digits. -/
theorem length_hex_four {n : Nat} (h : n < 0x10000) : (hex 4 n).length = 4 := by
  have hle : (Nat.toDigits 16 n).length ≤ 4 :=
    (Nat.length_toDigits_le_iff (by decide) (by decide)).2 h
  rw [hex, List.length_append, List.length_replicate]
  omega

theorem isHexDigit_of_mem_hex {width n : Nat} {c : Char} (h : c ∈ hex width n) :
    isHexDigit c = true := by
  rcases List.mem_append.1 h with h | h
  · rw [List.eq_of_mem_replicate h]
    rfl
  · exact isHexDigit_of_mem_toDigits h

theorem toNat_hex (width n : Nat) : toNat 16 (hex width n) = n := by
  rw [hex, toNat_replicate_append, toNat_toDigits (by decide) (by decide)]

end Text

namespace Json

-- ---------------------------------------------------------------------------
-- Strings
-- ---------------------------------------------------------------------------

theorem readUnit?_hex {n : Nat} (h : n < 0x10000) (rest : Text) :
    readUnit? (Text.hex 4 n ++ rest) = some (n, rest) := by
  obtain ⟨a, b, c, d, hdigits⟩ := List.length_eq_four.1 (Text.length_hex_four h)
  have hall : [a, b, c, d].all Text.isHexDigit = true :=
    List.all_eq_true.2 fun c hc => Text.isHexDigit_of_mem_hex (hdigits ▸ hc)
  have hvalue : Text.toNat 16 [a, b, c, d] = n := hdigits ▸ Text.toNat_hex 4 n
  rw [hdigits, List.cons_append, List.cons_append, List.cons_append, List.cons_append,
    List.nil_append, readUnit?, if_pos hall, hvalue]

theorem unitEscape_eq (n : Nat) : unitEscape n = '\\' :: 'u' :: Text.hex 4 n := rfl

/-- An escape of one character of a string, with its backslash. -/
def IsEscape (c : Char) (escape : Text) : Prop :=
  ∃ letters, escape = '\\' :: letters ∧ ∀ rest, readEscape? (letters ++ rest) = some (c, rest)

theorem isEscape_unit {c : Char} (h : c.toNat < 0x10000) : IsEscape c (unitEscape c.toNat) := by
  refine ⟨'u' :: Text.hex 4 c.toNat, unitEscape_eq _, fun rest => ?_⟩
  have hvalid : c.toNat < 0xD800 ∨ 0xDFFF < c.toNat ∧ c.toNat < 0x110000 := c.valid
  have hunit : c.toNat < 0xD800 ∨ 0xDFFF < c.toNat := hvalid.imp_right And.left
  rw [List.cons_append, readEscape?, readCodePoint?, readUnit?_hex h]
  simp only [if_pos hunit, Char.ofNat_toNat]

/-- The two halves of a pair, each with its escape, stand for one character. -/
theorem readCodePoint?_pair {high low : Nat} (hhigh : 0xD800 ≤ high ∧ high < 0xDC00)
    (hlow : 0xDC00 ≤ low ∧ low ≤ 0xDFFF) (rest : Text) :
    readCodePoint? (Text.hex 4 high ++ (unitEscape low ++ rest)) =
      some (Char.ofNat (0x10000 + (high - 0xD800) * 0x400 + (low - 0xDC00)), rest) := by
  have hhigh' : ¬ (high < 0xD800 ∨ 0xDFFF < high) := by omega
  rw [readCodePoint?, readUnit?_hex (by omega), unitEscape_eq, List.cons_append, List.cons_append]
  simp only [if_neg hhigh', readUnit?_hex (show low < 0x10000 by omega)]
  rw [if_pos ⟨hhigh.2, hlow⟩]

/-- A character above the code units is escaped as the two halves of a pair. -/
theorem isEscape_pair {c : Char} (h : 0x10000 ≤ c.toNat) :
    IsEscape c (unitEscape (0xD800 + (c.toNat - 0x10000) / 0x400) ++
      unitEscape (0xDC00 + (c.toNat - 0x10000) % 0x400)) := by
  have hvalid : c.toNat < 0xD800 ∨ 0xDFFF < c.toNat ∧ c.toNat < 0x110000 := c.valid
  generalize hhigh : 0xD800 + (c.toNat - 0x10000) / 0x400 = high
  generalize hlow : 0xDC00 + (c.toNat - 0x10000) % 0x400 = low
  have hvalue : 0x10000 + (high - 0xD800) * 0x400 + (low - 0xDC00) = c.toNat := by omega
  refine ⟨'u' :: (Text.hex 4 high ++ unitEscape low), ?_, fun rest => ?_⟩
  · rw [unitEscape_eq high, List.cons_append, List.cons_append]
  · rw [List.cons_append, readEscape?, List.append_assoc,
      readCodePoint?_pair (by omega) (by omega), hvalue, Char.ofNat_toNat]

/-- A character stands for itself in a string, or it is escaped. -/
theorem escapeChar_cases (c : Char) :
    escapeChar c = [c] ∧ c ≠ '"' ∧ c ≠ '\\' ∧ 0x20 ≤ c.toNat ∨ IsEscape c (escapeChar c) := by
  have hletter {c letter : Char} (hne : letter ≠ 'u')
      (h : letterEscapes.lookup letter = some c) : IsEscape c ['\\', letter] := by
    refine ⟨[letter], rfl, fun rest => ?_⟩
    rw [List.cons_append, List.nil_append, readEscape?, h]
    · rfl
    · exact hne
  unfold escapeChar
  split_ifs with hquote hbackslash hline hreturn htab hback hfeed hplain hunit
  · exact .inr (hquote ▸ hletter (by decide) rfl)
  · exact .inr (hbackslash ▸ hletter (by decide) rfl)
  · exact .inr (hline ▸ hletter (by decide) rfl)
  · exact .inr (hreturn ▸ hletter (by decide) rfl)
  · exact .inr (htab ▸ hletter (by decide) rfl)
  · exact .inr (hback ▸ hletter (by decide) rfl)
  · exact .inr (hfeed ▸ hletter (by decide) rfl)
  · exact .inl ⟨rfl, hquote, hbackslash, hplain.1⟩
  · exact .inr (isEscape_unit hunit)
  · exact .inr (isEscape_pair (Nat.le_of_not_lt hunit))

theorem readString?_escapeChar (c : Char) (s : Text) :
    readString? (escapeChar c ++ s) =
      (readString? s).map fun (string, rest) => (c :: string, rest) := by
  rcases escapeChar_cases c with ⟨hplain, hquote, hbackslash, hcontrol⟩ | ⟨letters, heq, hread⟩
  · rw [hplain, List.cons_append, List.nil_append, readString?, if_neg (Nat.not_lt.2 hcontrol)]
    · exact fun h => hquote h
    · exact fun h => hbackslash h
  · rw [heq, List.cons_append, readString?]
    split
    · rename_i c' rest hescape
      obtain ⟨rfl, rfl⟩ := Prod.mk.inj (Option.some.inj ((hread s).symm.trans hescape))
      rfl
    · rename_i hescape
      cases (hread s).symm.trans hescape

theorem readString?_flatMap (s rest : Text) :
    readString? (s.flatMap escapeChar ++ '"' :: rest) = some (s, rest) := by
  induction s with
  | nil => rw [List.flatMap_nil, List.nil_append, readString?]
  | cons c s ih => rw [List.flatMap_cons, List.append_assoc, readString?_escapeChar, ih]; rfl

-- ---------------------------------------------------------------------------
-- Numbers
-- ---------------------------------------------------------------------------

/-- What can come behind a value: the end of the text, a comma or a closing bracket. -/
def EndsValue (rest : Text) : Prop := ∀ c ∈ rest.head?, c = ',' ∨ c = ']' ∨ c = '\x7d'

theorem endsValue_nil : EndsValue [] := nofun

theorem endsValue_cons {c : Char} (h : c = ',' ∨ c = ']' ∨ c = '\x7d') (r : Text) :
    EndsValue (c :: r) := by
  rintro d ⟨⟩
  exact h

theorem EndsValue.dropWhile_digits {rest : Text} (h : EndsValue rest) :
    rest.dropWhile Char.isDigit = rest ∧ rest.takeWhile Char.isDigit = [] := by
  cases rest with
  | nil => exact ⟨rfl, rfl⟩
  | cons c r => rcases h c rfl with rfl | rfl | rfl <;> exact ⟨rfl, rfl⟩

theorem EndsValue.readFraction {rest : Text} (h : EndsValue rest) :
    readFraction rest = ([], rest) := by
  cases rest with
  | nil => rfl
  | cons c r => rcases h c rfl with rfl | rfl | rfl <;> rfl

theorem EndsValue.readExponent? {rest : Text} (h : EndsValue rest) :
    readExponent? rest = none := by
  cases rest with
  | nil => rfl
  | cons c r => rcases h c rfl with rfl | rfl | rfl <;> rfl

theorem takeWhile_ofNat (n : Nat) {rest : Text} (h : EndsValue rest) :
    (Text.ofNat n ++ rest).takeWhile Char.isDigit = Text.ofNat n := by
  rw [List.takeWhile_append_of_pos fun _ hc => Text.isDigit_of_mem_ofNat hc, h.dropWhile_digits.2,
    List.append_nil]

theorem readNat?_ofNat (n : Nat) {rest : Text} (h : EndsValue rest) :
    readNat? (Text.ofNat n ++ rest) = some (n, rest) := by
  have hne : (Text.ofNat n).isEmpty = false := List.isEmpty_eq_false_iff.2 Nat.toDigits_ne_nil
  have hzero : ¬ ((Text.ofNat n).head? = some '0' ∧ Text.ofNat n ≠ ['0']) := by
    rcases Nat.eq_zero_or_pos n with rfl | hpos
    · exact fun h => h.2 (Nat.toDigits_zero 10)
    · exact fun h => Text.head?_ofNat hpos h.1
  have hdrop : (Text.ofNat n ++ rest).dropWhile Char.isDigit = rest := by
    rw [List.dropWhile_append_of_pos fun _ hc => Text.isDigit_of_mem_ofNat hc,
      h.dropWhile_digits.1]
  unfold readNat?
  simp only [takeWhile_ofNat n h, hdrop, hne, Bool.false_eq_true, false_or, if_neg hzero]
  rw [Text.ofNat, Text.toNat_toDigits (by decide) (by decide)]

theorem readMagnitude?_ofNat (isNegative : Bool) {n : Nat}
    (hshort : Text.fitsIn Text.maxDigits n = true) {rest : Text} (h : EndsValue rest) :
    readMagnitude? isNegative (Text.ofNat n ++ rest) =
      some (.int (if isNegative then -(n : Int) else n), rest) := by
  simp only [readMagnitude?, readNat?_ofNat n h, h.readFraction, h.readExponent?,
    List.isEmpty_nil, if_true, if_pos hshort]

theorem exists_ofNat (n : Nat) : ∃ c r, Text.ofNat n = c :: r ∧ c.isDigit = true := by
  obtain ⟨c, r, heq⟩ := List.exists_cons_of_ne_nil (Nat.toDigits_ne_nil (n := n) (b := 10))
  have hmem : c ∈ Text.ofNat n := by
    rw [Text.ofNat, heq]
    exact List.mem_cons_self
  exact ⟨c, r, heq, Text.isDigit_of_mem_ofNat hmem⟩

theorem readNumber?_ofInt {i : Int} (hshort : Text.fitsIn Text.maxDigits i.natAbs = true) {rest : Text}
    (h : EndsValue rest) : readNumber? (Text.ofInt i ++ rest) = some (.int i, rest) := by
  cases i with
  | ofNat n =>
    obtain ⟨c, r, heq, hdigit⟩ := exists_ofNat n
    have hread := readMagnitude?_ofNat false (n := n) hshort h
    rw [Text.ofInt]
    rw [heq] at hread ⊢
    rw [List.cons_append] at hread ⊢
    rw [readNumber?, hread]
    · rfl
    · rintro r' hminus
      cases hminus
      cases hdigit
  | negSucc n => exact readMagnitude?_ofNat true (n := n + 1) hshort h

-- ---------------------------------------------------------------------------
-- Values
-- ---------------------------------------------------------------------------

/-- The values whose numbers are integers. -/
inductive Value.IsWhole : Value → Prop
  | null : IsWhole .null
  | bool (b : Bool) : IsWhole (.bool b)
  | int (i : Int) : IsWhole (.int i)
  | str (s : Text) : IsWhole (.str s)
  | arr {items : List Value} (hitems : ∀ v ∈ items, IsWhole v) : IsWhole (.arr items)
  | obj {members : List (Text × Value)} (hmembers : ∀ m ∈ members, IsWhole m.2) :
      IsWhole (.obj members)

/-- Whether a character is no white space of JSON and opens no string, array or object. -/
def OpensAtom (c : Char) : Prop := c ∉ [' ', '\t', '\n', '\r', '"', '[', '\x7b']

theorem readValue?_of_opensAtom {c : Char} (hc : OpensAtom c) (fuel : Nat) (r : Text) :
    readValue? (fuel + 1) (c :: r) = readAtom? (c :: r) := by
  simp only [OpensAtom, List.mem_cons, List.not_mem_nil, or_false, not_or] at hc
  obtain ⟨hspace, htab, hline, hreturn, hquote, hbracket, hbrace⟩ := hc
  have hblanks : skipBlanks (c :: r) = c :: r :=
    List.dropWhile_cons_of_neg (by simp [hspace, htab, hline, hreturn])
  rw [readValue?, hblanks]
  split
  · rename_i heq
    exact absurd (List.cons.inj heq).1 hquote
  · rename_i heq
    exact absurd (List.cons.inj heq).1 hbracket
  · rename_i heq
    exact absurd (List.cons.inj heq).1 hbrace
  · rfl

/-- The numeral of an integer begins with a digit or with its sign. -/
theorem exists_ofInt (i : Int) :
    ∃ c r, Text.ofInt i = c :: r ∧ (c = '-' ∨ c.isDigit = true) := by
  cases i with
  | ofNat n =>
    obtain ⟨c, r, heq, hdigit⟩ := exists_ofNat n
    exact ⟨c, r, heq, .inr hdigit⟩
  | negSucc n => exact ⟨'-', _, rfl, .inl rfl⟩

/-- No digit and no sign is one of the characters that open something else. -/
theorem not_mem_of_opensNumber {c : Char} (h : c = '-' ∨ c.isDigit = true) {others : Text}
    (hothers : '-' ∉ others ∧ others.any Char.isDigit = false) : c ∉ others := by
  rcases h with rfl | hdigit
  · exact hothers.1
  · exact fun hmem => List.any_eq_false.1 hothers.2 c hmem hdigit

theorem readAtom?_of_noWord {s : Text} (h : ∀ entry ∈ words, entry.1.isPrefixOf? s = none) :
    readAtom? s = readNumber? s := by
  rw [readAtom?, List.findSome?_eq_none_iff.2 fun entry hentry =>
    Option.map_eq_none_iff.2 (h entry hentry), Option.none_or]

theorem readAtom?_ofInt {i : Int} (hshort : Text.fitsIn Text.maxDigits i.natAbs = true) {rest : Text}
    (h : EndsValue rest) : readAtom? (Text.ofInt i ++ rest) = some (.int i, rest) := by
  have hnumber := readNumber?_ofInt hshort h
  obtain ⟨c, r, heq, hc⟩ := exists_ofInt i
  rw [heq, List.cons_append] at hnumber ⊢
  have hword : ∀ entry ∈ words, entry.1.isPrefixOf? (c :: (r ++ rest)) = none := by
    have hne : c ∉ ['n', 't', 'f'] := not_mem_of_opensNumber hc (by decide)
    simp only [List.mem_cons, List.not_mem_nil, or_false, not_or] at hne
    simp [words, List.isPrefixOf?, Ne.symm hne.1, Ne.symm hne.2.1, Ne.symm hne.2.2]
  rw [readAtom?_of_noWord hword, hnumber]

theorem readValue?_ofInt {i : Int} (hshort : Text.fitsIn Text.maxDigits i.natAbs = true) (fuel : Nat)
    {rest : Text} (h : EndsValue rest) :
    readValue? (fuel + 1) (Text.ofInt i ++ rest) = some (.int i, rest) := by
  have hread := readAtom?_ofInt hshort h
  obtain ⟨c, r, heq, hc⟩ := exists_ofInt i
  rw [heq, List.cons_append] at hread ⊢
  rw [readValue?_of_opensAtom (not_mem_of_opensNumber hc (by decide)), hread]

/-- The words that values are written as. -/
theorem readValue?_word {word : Text} {v : Value} (h : (word, v) ∈ words) (fuel : Nat)
    (rest : Text) : readValue? (fuel + 1) (word ++ rest) = some (v, rest) := by
  simp only [words, List.mem_cons, Prod.mk.injEq, List.not_mem_nil, or_false] at h
  rcases h with ⟨rfl, rfl⟩ | ⟨rfl, rfl⟩ | ⟨rfl, rfl⟩ <;>
    exact readValue?_of_opensAtom (by unfold OpensAtom; decide) fuel _

theorem skipBlanks_renderString (s rest : Text) : skipBlanks (renderString s ++ rest) =
    '"' :: (s.flatMap escapeChar ++ '"' :: rest) := by
  simp [renderString, skipBlanks]

theorem readValue?_renderString (s : Text) (fuel : Nat) (rest : Text) :
    readValue? (fuel + 1) (renderString s ++ rest) = some (.str s, rest) := by
  rw [readValue?, skipBlanks_renderString]
  simp only [readString?_flatMap, Option.map_some]

theorem readName?_renderString (key rest : Text) :
    readName? (renderString key ++ ':' :: rest) = some (key, rest) := by
  rw [readName?, skipBlanks_renderString]
  simp only [readString?_flatMap]
  rfl

/-- Whether the reader gives `v` back from its text, whatever comes behind it. -/
def ReadsBack (v : Value) : Prop :=
  -- A value and the list of items in it take a step each and at least one character each, so two steps
  -- for each character are enough.
  ∀ fuel rest, 2 * v.render.length ≤ fuel → EndsValue rest →
    readValue? fuel (v.render ++ rest) = some (v, rest)

/-- Whether `s` begins with what is neither white space nor a closing bracket. -/
def OpensItem (s : Text) : Prop :=
  ∃ c r, s = c :: r ∧ c ∉ [' ', '\t', '\n', '\r', ']', '\x7d']

theorem OpensItem.append {s : Text} (h : OpensItem s) (t : Text) : OpensItem (s ++ t) := by
  obtain ⟨c, r, rfl, hc⟩ := h
  exact ⟨c, r ++ t, rfl, hc⟩

theorem OpensItem.length_pos {s : Text} (h : OpensItem s) : 0 < s.length := by
  obtain ⟨c, r, rfl, -⟩ := h
  exact Nat.succ_pos _

theorem OpensItem.skipBlanks_eq {s : Text} (h : OpensItem s) : skipBlanks s = s := by
  obtain ⟨c, r, rfl, hc⟩ := h
  simp only [List.mem_cons, List.not_mem_nil, or_false, not_or] at hc
  exact List.dropWhile_cons_of_neg (by simp [hc])

theorem opensItem_renderString (s : Text) : OpensItem (renderString s) := ⟨'"', _, rfl, by decide⟩

theorem Value.IsWhole.opensItem {v : Value} (h : v.IsWhole) : OpensItem v.render := by
  cases h with
  | null => exact ⟨'n', _, rfl, by decide⟩
  | bool b =>
    cases b with
    | true => exact ⟨'t', _, rfl, by decide⟩
    | false => exact ⟨'f', _, rfl, by decide⟩
  | int i =>
    obtain ⟨c, r, heq, hc⟩ := exists_ofInt i
    exact ⟨c, r, heq, not_mem_of_opensNumber hc (by decide)⟩
  | str s => exact opensItem_renderString s
  | arr hitems => exact ⟨'[', _, rfl, by decide⟩
  | obj hmembers => exact ⟨'\x7b', _, rfl, by decide⟩

theorem readValue?_bracket {r : Text} (h : OpensItem r) (fuel : Nat) :
    readValue? (fuel + 1) ('[' :: r) =
      (readItems? fuel r).map fun (items, rest) => (.arr items, rest) := by
  have hopen : skipBlanks ('[' :: r) = '[' :: r := rfl
  rw [readValue?, hopen]
  simp only [h.skipBlanks_eq]
  obtain ⟨c, t, rfl, hc⟩ := h
  split
  · rename_i heq
    obtain ⟨rfl, -⟩ := List.cons.inj heq
    exact absurd (by decide) hc
  · rfl

theorem readValue?_brace {r : Text} (h : OpensItem r) (fuel : Nat) :
    readValue? (fuel + 1) ('\x7b' :: r) =
      (readMembers? fuel r).map fun (members, rest) => (.obj members, rest) := by
  have hopen : skipBlanks ('\x7b' :: r) = '\x7b' :: r := rfl
  rw [readValue?, hopen]
  simp only [h.skipBlanks_eq]
  obtain ⟨c, t, rfl, hc⟩ := h
  split
  · rename_i heq
    obtain ⟨rfl, -⟩ := List.cons.inj heq
    exact absurd (by decide) hc
  · rfl

theorem renderItems_eq (v : Value) (items : List Value) :
    renderItems (v :: items) =
      v.render ++ if items = [] then [] else ',' :: renderItems items := by
  cases items with
  | nil => exact (List.append_nil _).symm
  | cons w items => rw [renderItems, if_neg (List.cons_ne_nil _ _)]; exact List.cons_ne_nil _ _

theorem readItems?_renderItems {items : List Value} (hne : items ≠ [])
    (hitems : ∀ v ∈ items, ReadsBack v) {fuel : Nat} {rest : Text}
    (hfuel : 2 * (renderItems items).length + 1 ≤ fuel) :
    readItems? fuel (renderItems items ++ ']' :: rest) = some (items, rest) := by
  induction items generalizing fuel with
  | nil => exact absurd rfl hne
  | cons v items ih =>
    obtain ⟨hv, hitems⟩ := List.forall_mem_cons.1 hitems
    obtain ⟨fuel, rfl⟩ : ∃ f, fuel = f + 1 := ⟨fuel - 1, by omega⟩
    rw [renderItems_eq, List.length_append] at hfuel
    rw [renderItems_eq, List.append_assoc, readItems?]
    split_ifs at hfuel ⊢ with hlast
    · subst hlast
      have hread := hv fuel (']' :: rest) (by omega) (endsValue_cons (by decide) _)
      rw [List.nil_append, hread]
      rfl
    · have hread := hv fuel (',' :: (renderItems items ++ ']' :: rest))
        (by omega) (endsValue_cons (by decide) _)
      have hrest : readItems? fuel (renderItems items ++ ']' :: rest) = some (items, rest) :=
        ih hlast hitems (by rw [List.length_cons] at hfuel; omega)
      rw [List.cons_append, hread]
      exact congrArg (Option.map _) hrest

theorem renderMembers_eq (key : Text) (v : Value) (members : List (Text × Value)) :
    renderMembers ((key, v) :: members) = renderString key ++ ':' :: (v.render ++
      if members = [] then [] else ',' :: renderMembers members) := by
  cases members with
  | nil => simp [renderMembers]
  | cons m members => simp [renderMembers]

theorem readMembers?_renderMembers {members : List (Text × Value)} (hne : members ≠ [])
    (hmembers : ∀ m ∈ members, ReadsBack m.2) {fuel : Nat} {rest : Text}
    (hfuel : 2 * (renderMembers members).length + 1 ≤ fuel) :
    readMembers? fuel (renderMembers members ++ '\x7d' :: rest) = some (members, rest) := by
  induction members generalizing fuel with
  | nil => exact absurd rfl hne
  | cons m members ih =>
    obtain ⟨key, v⟩ := m
    obtain ⟨hv, hmembers⟩ : ReadsBack v ∧ ∀ m ∈ members, ReadsBack m.2 :=
      List.forall_mem_cons.1 hmembers
    obtain ⟨fuel, rfl⟩ : ∃ f, fuel = f + 1 := ⟨fuel - 1, by omega⟩
    rw [renderMembers_eq, List.length_append, List.length_cons, List.length_append] at hfuel
    rw [renderMembers_eq, List.append_assoc, List.cons_append, List.append_assoc, readMembers?,
      readName?_renderString]
    split_ifs at hfuel ⊢ with hlast
    · subst hlast
      have hread := hv fuel ('\x7d' :: rest) (by omega) (endsValue_cons (by decide) _)
      simp only [List.nil_append, hread]
      rfl
    · have hread := hv fuel (',' :: (renderMembers members ++ '\x7d' :: rest))
        (by omega) (endsValue_cons (by decide) _)
      have hrest : readMembers? fuel (renderMembers members ++ '\x7d' :: rest) =
          some (members, rest) := ih hlast hmembers (by rw [List.length_cons] at hfuel; omega)
      simp only [List.cons_append, hread]
      exact congrArg (Option.map _) hrest

theorem readsBack_arr {items : List Value} (hitems : ∀ v ∈ items, v.IsWhole)
    (hread : ∀ v ∈ items, ReadsBack v) : ReadsBack (.arr items) := by
  intro fuel rest hfuel _
  rw [Value.render, List.length_append, List.length_cons, List.length_singleton] at hfuel
  obtain ⟨fuel, rfl⟩ : ∃ f, fuel = f + 1 := ⟨fuel - 1, by omega⟩
  rw [Value.render, List.append_assoc, List.cons_append]
  cases items with
  | nil => rfl
  | cons v items =>
    have hopens : OpensItem (renderItems (v :: items)) := by
      rw [renderItems_eq]
      exact (hitems v List.mem_cons_self).opensItem.append _
    have hrest : readItems? fuel (renderItems (v :: items) ++ ']' :: rest) =
        some (v :: items, rest) :=
      readItems?_renderItems (List.cons_ne_nil v items) hread (by omega)
    rw [readValue?_bracket (hopens.append _)]
    exact congrArg (Option.map _) hrest

theorem readsBack_obj {members : List (Text × Value)} (hread : ∀ m ∈ members, ReadsBack m.2) :
    ReadsBack (.obj members) := by
  intro fuel rest hfuel _
  rw [Value.render, List.length_append, List.length_cons, List.length_singleton] at hfuel
  obtain ⟨fuel, rfl⟩ : ∃ f, fuel = f + 1 := ⟨fuel - 1, by omega⟩
  rw [Value.render, List.append_assoc, List.cons_append]
  cases members with
  | nil => rfl
  | cons m members =>
    have hopens : OpensItem (renderMembers (m :: members)) := by
      rw [renderMembers_eq]
      exact (opensItem_renderString m.1).append _
    have hrest : readMembers? fuel (renderMembers (m :: members) ++ '\x7d' :: rest) =
        some (m :: members, rest) :=
      readMembers?_renderMembers (List.cons_ne_nil m members) hread (by omega)
    rw [readValue?_brace (hopens.append _)]
    exact congrArg (Option.map _) hrest

/-- A value without items and members is read in one step. -/
theorem readsBack_of_step {v : Value} (h : v.IsWhole) (hread : ∀ fuel rest, EndsValue rest →
    readValue? (fuel + 1) (v.render ++ rest) = some (v, rest)) : ReadsBack v := by
  intro fuel rest hfuel hrest
  have hpos := h.opensItem.length_pos
  obtain ⟨fuel, rfl⟩ : ∃ f, fuel = f + 1 := ⟨fuel - 1, by omega⟩
  exact hread fuel rest hrest

theorem itemsPrintable_iff {items : List Value} :
    itemsPrintable items = true ↔ ∀ v ∈ items, v.isPrintable = true := by
  induction items with
  | nil => simp [itemsPrintable]
  | cons v items ih => simp [itemsPrintable, ih]

theorem membersPrintable_iff {members : List (Text × Value)} :
    membersPrintable members = true ↔ ∀ m ∈ members, m.2.isPrintable = true := by
  induction members with
  | nil => simp [membersPrintable]
  | cons m members ih =>
    obtain ⟨key, v⟩ := m
    rw [membersPrintable, Bool.and_eq_true, ih, List.forall_mem_cons]

/-- Every value that is printed and whose numbers are integers is read back. -/
theorem Value.IsWhole.readsBack {v : Value} (h : v.IsWhole) (hprints : v.isPrintable = true) :
    ReadsBack v := by
  induction h with
  | null => exact readsBack_of_step .null fun fuel rest _ => readValue?_word (.head _) fuel rest
  | bool b =>
    refine readsBack_of_step (.bool b) fun fuel rest _ => ?_
    cases b with
    | true => exact readValue?_word (.tail _ (.head _)) fuel rest
    | false => exact readValue?_word (.tail _ (.tail _ (.head _))) fuel rest
  | int i =>
    rw [Value.isPrintable] at hprints
    exact readsBack_of_step (.int i) fun fuel rest => readValue?_ofInt hprints fuel
  | str s => exact readsBack_of_step (.str s) fun fuel rest _ => readValue?_renderString s fuel rest
  | arr hitems ih =>
    rw [Value.isPrintable, itemsPrintable_iff] at hprints
    exact readsBack_arr hitems fun v hv => ih v hv (hprints v hv)
  | obj hmembers ih =>
    rw [Value.isPrintable, membersPrintable_iff] at hprints
    exact readsBack_obj fun m hm => ih m hm (hprints m hm)

/-- The text of a value that is printed and whose numbers are integers is parsed to the value. -/
theorem parse?_render {v : Value} (h : v.IsWhole) (hprints : v.isPrintable = true) :
    Value.parse? v.render = some v := by
  have hread := h.readsBack hprints _ [] (Nat.le_succ _) endsValue_nil
  rw [List.append_nil] at hread
  rw [Value.parse?, hread]
  rfl

end Json

end PageSplice

-- SUMMARY: Charsets: which texts can be encoded, and that what is encoded is decoded again.
import Mathlib.Data.List.TakeWhile
import PageSplice.Charset.Basic

/-!
# Charsets

A text can be encoded where the charset has all of its characters, and then the
bytes are decoded to the text again. What has been decoded can be encoded. Under
UTF-8 the bytes of a character say how many they are, and each of them keeps
within the bounds that a strict decoder sets.
-/

namespace PageSplice.Charset

-- ---------------------------------------------------------------------------
-- Bytes of UTF-8
-- ---------------------------------------------------------------------------

namespace Utf8

theorem toNat_toUInt8 {n : Nat} (h : n < 256) : n.toUInt8.toNat = n :=
  (UInt8.toNat_ofNat' (n := n)).trans (Nat.mod_eq_of_lt h)

/-- The byte that goes on with a character by the last six bits of `n`. -/
def tailByte (n : Nat) : UInt8 := (0x80 + n % 64).toUInt8

theorem toNat_tailByte (n : Nat) : (tailByte n).toNat = 0x80 + n % 64 :=
  toNat_toUInt8 (by omega)

theorem encodeChar_eq_tailBytes (c : Char) :
    encodeChar c =
      if c.toNat < 0x80 then [c.toNat.toUInt8]
      else if c.toNat < 0x800 then [(0xC0 + c.toNat / 64).toUInt8, tailByte c.toNat]
      else if c.toNat < 0x10000 then
        [(0xE0 + c.toNat / 4096).toUInt8, tailByte (c.toNat / 64), tailByte c.toNat]
      else
        [(0xF0 + c.toNat / 262144).toUInt8, tailByte (c.toNat / 4096), tailByte (c.toNat / 64),
          tailByte c.toNat] := rfl

theorem tailLength?_toUInt8 {n : Nat} (h : n < 256) :
    tailLength? n.toUInt8 =
      if n < 0x80 then some 0 else if n < 0xC2 then none else if n < 0xE0 then some 1
      else if n < 0xF0 then some 2 else if n < 0xF5 then some 3 else none := by
  simp only [tailLength?, UInt8.lt_iff_toNat_lt, toNat_toUInt8 h]
  rfl

theorem isTail_tailByte (n : Nat) : isTail (tailByte n) = true := by
  have hbounds : 0x80 ≤ 0x80 + n % 64 ∧ 0x80 + n % 64 < 0xC0 := by omega
  simp only [isTail, Bool.and_eq_true, decide_eq_true_eq, UInt8.le_iff_toNat_le,
    UInt8.lt_iff_toNat_lt, toNat_tailByte]
  exact hbounds

/-- Four leading bytes bound the byte behind them: from below, so that no character is overlong, and
from above, against surrogates and beyond the last code point. -/
theorem isSecond_tailByte {lead n : Nat} (hlead : lead < 256)
    (hlow : (lead = 0xE0 → 0x20 ≤ n % 64) ∧ (lead = 0xF0 → 0x10 ≤ n % 64))
    (hhigh : (lead = 0xED → n % 64 < 0x20) ∧ (lead = 0xF4 → n % 64 < 0x10)) :
    isSecond lead.toUInt8 (tailByte n) = true := by
  have heq (k : Nat) (hk : k < 256) (h : lead.toUInt8 = k.toUInt8) : lead = k := by
    rw [← toNat_toUInt8 hlead, h, toNat_toUInt8 hk]
  have hle {k : Nat} (hk : k < 256) (h : k ≤ 0x80 + n % 64) : k.toUInt8 ≤ tailByte n := by
    rw [UInt8.le_iff_toNat_le, toNat_tailByte, toNat_toUInt8 hk]
    exact h
  have hlt {k : Nat} (hk : k < 256) (h : 0x80 + n % 64 < k) : tailByte n < k.toUInt8 := by
    rw [UInt8.lt_iff_toNat_lt, toNat_tailByte, toNat_toUInt8 hk]
    exact h
  rw [isSecond, isTail_tailByte, Bool.true_and]
  split
  · rename_i h
    have := hlow.1 (heq 0xE0 (by decide) h)
    exact decide_eq_true (@hle 0xA0 (by decide) (by omega))
  · split
    · rename_i h
      have := hhigh.1 (heq 0xED (by decide) h)
      exact decide_eq_true (@hlt 0xA0 (by decide) (by omega))
    · split
      · rename_i h
        have := hlow.2 (heq 0xF0 (by decide) h)
        exact decide_eq_true (@hle 0x90 (by decide) (by omega))
      · split
        · rename_i h
          have := hhigh.2 (heq 0xF4 (by decide) h)
          exact decide_eq_true (@hlt 0x90 (by decide) (by omega))
        · rfl

/-- A further byte of a character adds its bits. -/
theorem collect_tailByte {accept : UInt8 → Bool} {n : Nat} (h : accept (tailByte n) = true)
    (seen value missing : Nat) (rest : Bytes) :
    collect accept seen value (missing + 1) (tailByte n :: rest) =
      collect isTail (seen + 1) (value * 64 + n % 64) missing rest := by
  rw [collect, if_pos h, toNat_tailByte, Nat.add_sub_cancel_left]

/-- The bytes of a character are read back as the character, whatever follows them. -/
theorem exists_front_encodeChar (c : Char) (rest : Bytes) :
    ∃ lead tail, encodeChar c = lead :: tail ∧ front lead (tail ++ rest) = .char c rest := by
  have hvalid : c.toNat < 0xD800 ∨ 0xDFFF < c.toNat ∧ c.toNat < 0x110000 := c.valid
  have hread {n : Nat} (h : n = c.toNat) : Front.char (Char.ofNat n) rest = .char c rest := by
    rw [h, c.ofNat_toNat]
  rw [encodeChar_eq_tailBytes]
  split
  · rename_i hone
    refine ⟨_, _, rfl, ?_⟩
    rw [front, tailLength?_toUInt8 (by omega), if_pos hone]
    exact Eq.trans (by rfl) (hread (toNat_toUInt8 (by omega)))
  · split
    · refine ⟨_, _, rfl, ?_⟩
      have hlead : 0xC0 + c.toNat / 64 < 256 := by omega
      have hbits : leadBits (0xC0 + c.toNat / 64).toUInt8 1 = c.toNat / 64 :=
        (congrArg (· - 0xC0) (toNat_toUInt8 hlead)).trans (Nat.add_sub_cancel_left _ _)
      rw [front, tailLength?_toUInt8 hlead, if_neg (by omega), if_neg (by omega), if_pos (by omega)]
      refine (collect_tailByte (isSecond_tailByte hlead (by omega) (by omega)) _ _ _ _).trans ?_
      exact hread (by rw [hbits]; omega)
    · split
      · refine ⟨_, _, rfl, ?_⟩
        have hlead : 0xE0 + c.toNat / 4096 < 256 := by omega
        have hbits : leadBits (0xE0 + c.toNat / 4096).toUInt8 2 = c.toNat / 4096 :=
          (congrArg (· - 0xE0) (toNat_toUInt8 hlead)).trans (Nat.add_sub_cancel_left _ _)
        rw [front, tailLength?_toUInt8 hlead, if_neg (by omega), if_neg (by omega),
          if_neg (by omega), if_pos (by omega)]
        refine (collect_tailByte (isSecond_tailByte hlead (by omega) (by omega)) _ _ _ _).trans ?_
        refine (collect_tailByte (isTail_tailByte _) _ _ _ _).trans ?_
        exact hread (by rw [hbits]; omega)
      · refine ⟨_, _, rfl, ?_⟩
        have hlead : 0xF0 + c.toNat / 262144 < 256 := by omega
        have hbits : leadBits (0xF0 + c.toNat / 262144).toUInt8 3 = c.toNat / 262144 :=
          (congrArg (· - 0xF0) (toNat_toUInt8 hlead)).trans (Nat.add_sub_cancel_left _ _)
        rw [front, tailLength?_toUInt8 hlead, if_neg (by omega), if_neg (by omega),
          if_neg (by omega), if_neg (by omega), if_pos (by omega)]
        refine (collect_tailByte (isSecond_tailByte hlead (by omega) (by omega)) _ _ _ _).trans ?_
        refine (collect_tailByte (isTail_tailByte _) _ _ _ _).trans ?_
        refine (collect_tailByte (isTail_tailByte _) _ _ _ _).trans ?_
        exact hread (by rw [hbits]; omega)

theorem decode_encode (s : Text) : decode (encode s) = .ok s := by
  have hfrom (position : Nat) : decodeFrom position (encode s) = .ok s := by
    induction s generalizing position with
    | nil => rw [encode, List.flatMap_nil, decodeFrom]
    | cons c s ih =>
      obtain ⟨lead, tail, hbytes, hfront⟩ := exists_front_encodeChar c (encode s)
      have hencode : encode (c :: s) = lead :: (tail ++ encode s) := by
        rw [encode, List.flatMap_cons, hbytes, List.cons_append]
        rfl
      rw [hencode, decodeFrom]
      split
      · rename_i c' rest hfront'
        cases hfront.symm.trans hfront'
        rw [ih]
        rfl
      · rename_i length fault hfront'
        cases hfront.symm.trans hfront'
  exact hfrom 0

theorem toNat_ofNat {n : Nat} (h : n < 0xD800 ∨ 0xDFFF < n ∧ n < 0x110000) :
    (Char.ofNat n).toNat = n := by
  have hvalid : n.isValidChar := h
  rw [Char.ofNat, dif_pos hvalid]
  rfl

theorem collect_succ {accept : UInt8 → Bool} {seen value missing : Nat} {bytes rest : Bytes}
    {c : Char} (h : collect accept seen value (missing + 1) bytes = .char c rest) :
    ∃ b tail, bytes = b :: tail ∧ accept b = true ∧
      collect isTail (seen + 1) (value * 64 + (b.toNat - 0x80)) missing tail = .char c rest := by
  cases bytes with
  | nil => cases h
  | cons b tail =>
    rw [collect] at h
    split at h
    · rename_i haccept
      exact ⟨b, tail, rfl, haccept, h⟩
    · cases h

theorem collect_zero {accept : UInt8 → Bool} {seen value : Nat} {bytes rest : Bytes} {c : Char}
    (h : collect accept seen value 0 bytes = .char c rest) :
    Char.ofNat value = c ∧ bytes = rest := by
  rw [collect] at h
  exact Front.char.inj h

theorem of_isTail {b : UInt8} (h : isTail b = true) : 0x80 ≤ b.toNat ∧ b.toNat < 0xC0 := by
  simpa [isTail, UInt8.le_iff_toNat_le, UInt8.lt_iff_toNat_lt] using h

theorem of_isSecond {lead b : UInt8} (h : isSecond lead b = true) :
    (0x80 ≤ b.toNat ∧ b.toNat < 0xC0) ∧ (lead.toNat = 0xE0 → 0xA0 ≤ b.toNat) ∧
      (lead.toNat = 0xED → b.toNat < 0xA0) ∧ (lead.toNat = 0xF0 → 0x90 ≤ b.toNat) ∧
      (lead.toNat = 0xF4 → b.toNat < 0x90) := by
  rw [isSecond, Bool.and_eq_true] at h
  obtain ⟨htail, hbound⟩ := h
  have heq (k : UInt8) : lead = k ↔ lead.toNat = k.toNat := UInt8.toNat_inj.symm
  simp only [heq, UInt8.le_iff_toNat_le, UInt8.lt_iff_toNat_lt, UInt8.reduceToNat] at hbound
  refine ⟨of_isTail htail, ?_⟩
  split_ifs at hbound <;> simp only [decide_eq_true_eq] at hbound <;> omega

theorem tailLength?_eq_some {lead : UInt8} {n : Nat} (h : tailLength? lead = some n) :
    n = 0 ∧ lead.toNat < 0x80 ∨ n = 1 ∧ 0xC2 ≤ lead.toNat ∧ lead.toNat < 0xE0 ∨
      n = 2 ∧ 0xE0 ≤ lead.toNat ∧ lead.toNat < 0xF0 ∨
      n = 3 ∧ 0xF0 ≤ lead.toNat ∧ lead.toNat < 0xF5 := by
  simp only [tailLength?, UInt8.lt_iff_toNat_lt, UInt8.reduceToNat] at h
  split_ifs at h <;> cases h <;> omega

theorem encodeChar_ofNat {n : Nat} (h : n < 0xD800 ∨ 0xDFFF < n ∧ n < 0x110000) :
    encodeChar (Char.ofNat n) =
      if n < 0x80 then [n.toUInt8]
      else if n < 0x800 then [(0xC0 + n / 64).toUInt8, tailByte n]
      else if n < 0x10000 then [(0xE0 + n / 4096).toUInt8, tailByte (n / 64), tailByte n]
      else [(0xF0 + n / 262144).toUInt8, tailByte (n / 4096), tailByte (n / 64), tailByte n] := by
  rw [encodeChar_eq_tailBytes, toNat_ofNat h]

theorem toUInt8_eq {n : Nat} {b : UInt8} (h : n = b.toNat) : n.toUInt8 = b := by
  rw [h]
  exact UInt8.ofNat_toNat

theorem tailByte_eq {n : Nat} {b : UInt8} (h : 0x80 + n % 64 = b.toNat) : tailByte n = b :=
  toUInt8_eq h

/-- The bytes that a character is read from are those that it is written as. -/
theorem encodeChar_of_front {lead : UInt8} {bytes rest : Bytes} {c : Char}
    (h : front lead bytes = .char c rest) : encodeChar c ++ rest = lead :: bytes := by
  rw [front] at h
  split at h
  · cases h
  · rename_i n hlength
    have hbits : leadBits lead 0 = lead.toNat ∧ leadBits lead 1 = lead.toNat - 0xC0 ∧
        leadBits lead 2 = lead.toNat - 0xE0 ∧ leadBits lead 3 = lead.toNat - 0xF0 :=
      ⟨rfl, rfl, rfl, rfl⟩
    rcases tailLength?_eq_some hlength with ⟨rfl, hlead⟩ | ⟨rfl, hlow, hhigh⟩ |
      ⟨rfl, hlow, hhigh⟩ | ⟨rfl, hlow, hhigh⟩
    · obtain ⟨rfl, rfl⟩ := collect_zero h
      rw [hbits.1, encodeChar_ofNat (by omega), if_pos hlead, toUInt8_eq rfl]
      rfl
    · obtain ⟨b, bytes, rfl, hsecond, h⟩ := collect_succ h
      obtain ⟨hb, -⟩ := of_isSecond hsecond
      obtain ⟨rfl, rfl⟩ := collect_zero h
      rw [hbits.2.1, encodeChar_ofNat (by omega), if_neg (by omega), if_pos (by omega),
        toUInt8_eq (b := lead) (by omega), tailByte_eq (b := b) (by omega)]
      rfl
    · obtain ⟨b, bytes, rfl, hsecond, h⟩ := collect_succ h
      obtain ⟨b₃, bytes, rfl, hthird, h⟩ := collect_succ h
      obtain ⟨hb, hoverlong, hsurrogate, -⟩ := of_isSecond hsecond
      have hb₃ := of_isTail hthird
      obtain ⟨rfl, rfl⟩ := collect_zero h
      rw [hbits.2.2.1, encodeChar_ofNat (by omega), if_neg (by omega), if_neg (by omega),
        if_pos (by omega), toUInt8_eq (b := lead) (by omega), tailByte_eq (b := b) (by omega),
        tailByte_eq (b := b₃) (by omega)]
      rfl
    · obtain ⟨b, bytes, rfl, hsecond, h⟩ := collect_succ h
      obtain ⟨b₃, bytes, rfl, hthird, h⟩ := collect_succ h
      obtain ⟨b₄, bytes, rfl, hfourth, h⟩ := collect_succ h
      obtain ⟨hb, -, -, hoverlong, hlast⟩ := of_isSecond hsecond
      have hb₃ := of_isTail hthird
      have hb₄ := of_isTail hfourth
      obtain ⟨rfl, rfl⟩ := collect_zero h
      rw [hbits.2.2.2, encodeChar_ofNat (by omega), if_neg (by omega), if_neg (by omega),
        if_neg (by omega), toUInt8_eq (b := lead) (by omega), tailByte_eq (b := b) (by omega),
        tailByte_eq (b := b₃) (by omega), tailByte_eq (b := b₄) (by omega)]
      rfl

/-- What is decoded is encoded again. -/
theorem encode_of_decode {bytes : Bytes} {text : Text} (h : decode bytes = .ok text) :
    encode text = bytes := by
  have general (position : Nat) (bytes : Bytes) (text : Text)
      (h : decodeFrom position bytes = .ok text) : encode text = bytes := by
    induction hn : bytes.length using Nat.strongRecOn generalizing position bytes text with
    | ind n ih =>
      subst hn
      cases bytes with
      | nil =>
        rw [decodeFrom] at h
        cases h
        rfl
      | cons lead bytes =>
        rw [decodeFrom] at h
        split at h
        · rename_i c rest hfront
          cases hrest : decodeFrom (position + 1 + (bytes.length - rest.length)) rest with
          | error e =>
            rw [hrest] at h
            cases h
          | ok text' =>
            rw [hrest] at h
            cases h
            have hshorter := front_length hfront
            rw [encode, List.flatMap_cons, ← encodeChar_of_front hfront]
            refine congrArg _ (ih _ ?_ _ _ _ hrest rfl)
            rw [List.length_cons]
            omega
        · cases h
  exact general 0 bytes text h

end Utf8

-- ---------------------------------------------------------------------------
-- Texts of a charset
-- ---------------------------------------------------------------------------

def Expresses (charset : Charset) (text : Text) : Prop := ∀ c ∈ text, c.toNat < charset.limit

theorem expresses_utf8 (text : Text) : utf8.Expresses text := by
  intro c _
  have hvalid : c.toNat < 0xD800 ∨ 0xDFFF < c.toNat ∧ c.toNat < 0x110000 := c.valid
  change c.toNat < 0x110000
  omega

theorem ascii_le_limit (charset : Charset) : 0x80 ≤ charset.limit := by
  cases charset <;> decide

def singleBytes (text : Text) : Bytes := text.map fun c => c.toNat.toUInt8

theorem encode_eq_ok {charset : Charset} (hsingle : charset ≠ .utf8) {text : Text}
    (h : charset.Expresses text) : charset.encode text = .ok (singleBytes text) := by
  have hall : text.dropWhile (fun c => decide (c.toNat < charset.limit)) = [] :=
    List.dropWhile_eq_nil_iff.2 fun c hc => decide_eq_true (h c hc)
  cases charset with
  | utf8 => exact absurd rfl hsingle
  | latin1 => simp only [encode, hall, singleBytes]
  | ascii => simp only [encode, hall, singleBytes]

theorem encode_eq_error {charset : Charset} (hsingle : charset ≠ .utf8) {text : Text}
    (h : ¬ charset.Expresses text) : ∃ error, charset.encode text = .error error := by
  cases hmisfits : text.dropWhile (fun c => decide (c.toNat < charset.limit)) with
  | nil =>
    refine absurd (fun c hc => ?_) h
    exact of_decide_eq_true (List.dropWhile_eq_nil_iff.1 hmisfits c hc)
  | cons c rest =>
    cases charset with
    | utf8 => exact absurd rfl hsingle
    | latin1 => exact ⟨_, by simp only [encode, hmisfits]; rfl⟩
    | ascii => exact ⟨_, by simp only [encode, hmisfits]; rfl⟩

/-- A text can be encoded where the charset has its characters. -/
theorem exists_encode_iff {charset : Charset} {text : Text} :
    (∃ bytes, charset.encode text = .ok bytes) ↔ charset.Expresses text := by
  by_cases hutf8 : charset = .utf8
  · subst hutf8
    exact ⟨fun _ => expresses_utf8 text, fun _ => ⟨_, rfl⟩⟩
  · constructor
    · rintro ⟨bytes, hbytes⟩
      by_contra hnot
      obtain ⟨error, herror⟩ := encode_eq_error hutf8 hnot
      cases hbytes.symm.trans herror
    · exact fun h => ⟨_, encode_eq_ok hutf8 h⟩

theorem map_ofNat_singleBytes {text : Text} (h : ∀ c ∈ text, c.toNat < 0x100) :
    ((singleBytes text).map fun b => Char.ofNat b.toNat) = text := by
  rw [singleBytes, List.map_map]
  refine (List.map_congr_left fun c hc => ?_).trans (List.map_id text)
  rw [Function.comp_apply, Utf8.toNat_toUInt8 (h c hc), c.ofNat_toNat]
  rfl

/-- What is encoded is decoded again. -/
theorem decode_of_encode {charset : Charset} {text : Text} {bytes : Bytes}
    (h : charset.encode text = .ok bytes) : charset.decode bytes = .ok text := by
  have hexpresses := exists_encode_iff.1 ⟨bytes, h⟩
  cases charset with
  | utf8 =>
    cases h
    rw [decode, Utf8.decode_encode]
    rfl
  | latin1 =>
    cases (encode_eq_ok (by decide) hexpresses).symm.trans h
    exact congrArg Except.ok (map_ofNat_singleBytes hexpresses)
  | ascii =>
    cases (encode_eq_ok (by decide) hexpresses).symm.trans h
    have hsmall : ∀ c ∈ text, c.toNat < 0x100 := fun c hc =>
      Nat.lt_trans (hexpresses c hc) (by decide)
    have hnone : (singleBytes text).findIdx? (fun b => 0x80 ≤ b) = none := by
      refine List.findIdx?_eq_none_iff.2 fun b hb => ?_
      obtain ⟨c, hc, rfl⟩ := List.mem_map.1 hb
      refine decide_eq_false fun hle => ?_
      rw [UInt8.le_iff_toNat_le, Utf8.toNat_toUInt8 (hsmall c hc)] at hle
      exact absurd (hexpresses c hc) (Nat.not_lt.2 hle)
    simp only [decode, hnone, map_ofNat_singleBytes hsmall]

/-- What has been decoded is a text of the charset. -/
theorem expresses_of_decode {charset : Charset} {text : Text} {bytes : Bytes}
    (h : charset.decode bytes = .ok text) : charset.Expresses text := by
  have hbyte (b : UInt8) : (Char.ofNat b.toNat).toNat = b.toNat := by
    have hall : ∀ n : Fin 256, (Char.ofNat n).toNat = n := by decide +kernel
    exact hall b.toFin
  cases charset with
  | utf8 => exact expresses_utf8 text
  | latin1 =>
    cases h
    intro c hc
    obtain ⟨b, -, rfl⟩ := List.mem_map.1 hc
    rw [hbyte]
    exact b.toNat_lt
  | ascii =>
    rw [decode] at h
    split at h
    · cases h
    · rename_i hnone
      cases h
      intro c hc
      obtain ⟨b, hb, rfl⟩ := List.mem_map.1 hc
      have hlow := List.findIdx?_eq_none_iff.1 hnone b hb
      rw [decide_eq_false_iff_not, UInt8.le_iff_toNat_le] at hlow
      rw [hbyte]
      exact Nat.not_le.1 hlow

end PageSplice.Charset

-- SUMMARY: Digests of texts: equal only where the texts are, or where two byte strings collide.
import PageSplice.Digest

/-!
# Digests of texts

A text is encoded, the bytes are hashed, and the hash is written down in
hexadecimal. The first and the last step lose nothing, so two texts with one
digest are equal unless their encodings collide.
-/

namespace PageSplice

-- ---------------------------------------------------------------------------
-- Hexadecimal forms
-- ---------------------------------------------------------------------------

namespace Bytes

/-- A byte is written in two digits, which are read back as the byte. -/
theorem exists_hex_byte (byte : UInt8) :
    ∃ a b, Text.hex 2 byte.toNat = [a, b] ∧ (Text.toNat 16 [a, b]).toUInt8 = byte := by
  have hall : ∀ n : Fin 256, Text.hex 2 n = [(Text.hex 2 n).headD '0', (Text.hex 2 n).getLastD '0'] ∧
      Text.toNat 16 (Text.hex 2 n) = n := by decide +kernel
  obtain ⟨hdigits, hread⟩ := hall byte.toFin
  refine ⟨_, _, hdigits, ?_⟩
  rw [← hdigits, hread]
  exact UInt8.ofNat_toNat

/-- The hexadecimal form of a byte string is read back as the byte string. -/
theorem ofHex_toHex (bytes : Bytes) : ofHex (toHex bytes) = bytes := by
  induction bytes with
  | nil => rfl
  | cons byte rest ih =>
    obtain ⟨a, b, hdigits, hread⟩ := exists_hex_byte byte
    rw [toHex, List.flatMap_cons, hdigits]
    exact congr (congrArg List.cons hread) ih

theorem length_toHex (bytes : Bytes) : (toHex bytes).length = 2 * bytes.length := by
  induction bytes with
  | nil => rfl
  | cons byte rest ih =>
    obtain ⟨a, b, hdigits, -⟩ := exists_hex_byte byte
    rw [toHex, List.flatMap_cons, hdigits]
    refine (congrArg (· + 2) ih).trans ?_
    rw [List.length_cons]
    omega

end Bytes

-- ---------------------------------------------------------------------------
-- Encodings
-- ---------------------------------------------------------------------------

namespace Charset.Utf8

/-- A character has the bytes that the standard library gives it. -/
theorem encodeChar_eq (c : Char) : encodeChar c = String.utf8EncodeChar c := by
  have hbound : c.toNat < 0x110000 := by
    have hvalid := c.valid
    simp only [UInt32.isValidChar, Nat.isValidChar] at hvalid
    rw [← Char.toNat_val]
    omega
  unfold encodeChar String.utf8EncodeChar
  simp only [Char.toNat_val]
  refine ite_congr (propext (by omega)) (fun _ => rfl) fun _ => ?_
  refine ite_congr (propext (by omega)) (fun _ => ?_) fun _ => ?_
  · rw [show 0xC0 + c.toNat / 64 = c.toNat / 64 % 32 + 192 by omega, Nat.add_comm 0x80]
  · refine ite_congr (propext (by omega)) (fun _ => ?_) fun _ => ?_
    · rw [show 0xE0 + c.toNat / 4096 = c.toNat / 4096 % 16 + 224 by omega, Nat.add_comm 0x80,
        Nat.add_comm 0x80]
    · rw [show 0xF0 + c.toNat / 262144 = c.toNat / 262144 % 8 + 240 by omega, Nat.add_comm 0x80,
        Nat.add_comm 0x80, Nat.add_comm 0x80]

theorem encode_injective {s t : Text} (h : encode s = encode t) : s = t := by
  have hbytes (s : Text) : (String.ofList s).toByteArray = (encode s).toByteArray := by
    unfold encode
    rw [funext encodeChar_eq]
    rfl
  refine String.ofList_injective (String.toByteArray_inj.1 ?_)
  rw [hbytes, hbytes, h]

end Charset.Utf8

-- ---------------------------------------------------------------------------
-- Digests
-- ---------------------------------------------------------------------------

namespace Digest

theorem length_sha256 (message : Bytes) : (sha256 message).length = 32 := rfl

/-- All sixty-four digits of a digest tell the hash. -/
theorem sha256_eq_of_short {s t : Text} (h : short 64 s = short 64 t) :
    sha256 (Charset.Utf8.encode s) = sha256 (Charset.Utf8.encode t) := by
  have hshort (s : Text) : short 64 s = Bytes.toHex (sha256 (Charset.Utf8.encode s)) := by
    refine List.take_of_length_le ?_
    rw [ofText, Bytes.length_toHex, length_sha256]
    decide
  rw [hshort, hshort] at h
  rw [← Bytes.ofHex_toHex (sha256 (Charset.Utf8.encode s)), h, Bytes.ofHex_toHex]

end Digest

end PageSplice

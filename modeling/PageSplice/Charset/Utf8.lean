-- SUMMARY: UTF-8: encoding, strict decoding with the first fault, and decoding with replacement.
import PageSplice.Bytes

/-!
# UTF-8

A decoder takes one character at a time off the front of a byte string. Where
the bytes form no character it says how many of them belong to the fault and
what is wrong with them: a fault covers the longest beginning of a character.
-/

namespace PageSplice.Charset.Utf8

/-- The bytes of one character. -/
def encodeChar (c : Char) : Bytes :=
  let n := c.toNat
  if n < 0x80 then [n.toUInt8]
  else if n < 0x800 then [(0xC0 + n / 64).toUInt8, (0x80 + n % 64).toUInt8]
  else if n < 0x10000 then
    [(0xE0 + n / 4096).toUInt8, (0x80 + n / 64 % 64).toUInt8, (0x80 + n % 64).toUInt8]
  else
    [(0xF0 + n / 262144).toUInt8, (0x80 + n / 4096 % 64).toUInt8, (0x80 + n / 64 % 64).toUInt8,
      (0x80 + n % 64).toUInt8]

def encode (s : Text) : Bytes := s.flatMap encodeChar

inductive Fault
  | startByte
  | continuation
  | truncated
  deriving DecidableEq, Repr

inductive Front
  | char (c : Char) (rest : Bytes)
  | fault (length : Nat) (fault : Fault)

/-- Whether `b` may follow the first byte of a character. -/
def isTail (b : UInt8) : Bool := 0x80 ≤ b && b < 0xC0

/-- The bytes that may come second after `lead`; they are fewer where the character would be
overlong, a surrogate, or above the last code point. -/
def isSecond (lead b : UInt8) : Bool :=
  isTail b &&
  (if lead = 0xE0 then 0xA0 ≤ b
   else if lead = 0xED then b < 0xA0
   else if lead = 0xF0 then 0x90 ≤ b
   else if lead = 0xF4 then b < 0x90
   else true)

/-- How many bytes follow the first byte of a character; `none` for bytes that begin no
character. -/
def tailLength? (lead : UInt8) : Option Nat :=
  if lead < 0x80 then some 0
  else if lead < 0xC2 then none
  else if lead < 0xE0 then some 1
  else if lead < 0xF0 then some 2
  else if lead < 0xF5 then some 3
  else none

/-- The payload bits of the first byte, given how many bytes follow it. -/
def leadBits (lead : UInt8) : Nat → Nat
  | 0 => lead.toNat
  | 1 => lead.toNat - 0xC0
  | 2 => lead.toNat - 0xE0
  | _ => lead.toNat - 0xF0

/-- Collects `missing` more bytes of a character, of which `seen` have been read. -/
def collect (accept : UInt8 → Bool) (seen value : Nat) : Nat → Bytes → Front
  | 0, rest => .char (Char.ofNat value) rest
  | _ + 1, [] => .fault seen .truncated
  | missing + 1, b :: rest =>
    if accept b then collect isTail (seen + 1) (value * 64 + (b.toNat - 0x80)) missing rest
    else .fault seen .continuation

def front (lead : UInt8) (rest : Bytes) : Front :=
  match tailLength? lead with
  | none => .fault 1 .startByte
  | some n => collect (isSecond lead) 1 (leadBits lead n) n rest

theorem collect_length {accept : UInt8 → Bool} {seen value missing : Nat} {bytes rest : Bytes}
    {c : Char} (h : collect accept seen value missing bytes = .char c rest) :
    rest.length ≤ bytes.length := by
  induction missing generalizing accept seen value bytes with
  | zero => simp only [collect, Front.char.injEq] at h; simp [h.2]
  | succ n ih =>
    cases bytes with
    | nil => simp [collect] at h
    | cons b r =>
      simp only [collect] at h
      split at h
      · exact Nat.le_succ_of_le (ih h)
      · simp at h

theorem front_length {lead : UInt8} {bytes rest : Bytes} {c : Char}
    (h : front lead bytes = .char c rest) : rest.length ≤ bytes.length := by
  unfold front at h
  split at h
  · simp at h
  · exact collect_length h

/-- A fault in a byte string: where it begins, the bytes it covers, and what is wrong. -/
structure BadBytes where
  position : Nat
  bytes : Bytes
  fault : Fault
  deriving DecidableEq, Repr

/-- The text of `bytes`, of which the first stands at `position`. -/
def decodeFrom (position : Nat) (bytes : Bytes) : Except BadBytes Text :=
  match bytes with
  | [] => .ok []
  | lead :: r =>
    match h : front lead r with
    | .char c rest =>
      have := front_length h
      (c :: ·) <$> decodeFrom (position + 1 + (r.length - rest.length)) rest
    | .fault length fault => .error ⟨position, (lead :: r).take length, fault⟩
termination_by bytes.length
decreasing_by simp only [List.length_cons]; omega

/-- The text of `bytes`, or the first fault. -/
def decode (bytes : Bytes) : Except BadBytes Text := decodeFrom 0 bytes

/-- The text of `bytes` with the replacement character for every fault. -/
def decodeLossy (bytes : Bytes) : Text :=
  match bytes with
  | [] => []
  | lead :: r =>
    match h : front lead r with
    | .char c rest =>
      have := front_length h
      c :: decodeLossy rest
    | .fault length _ => '\uFFFD' :: decodeLossy (r.drop (length - 1))
termination_by bytes.length
decreasing_by all_goals (simp only [List.length_cons, List.length_drop]; omega)

end PageSplice.Charset.Utf8

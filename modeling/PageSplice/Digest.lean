-- SUMMARY: The SHA-256 digest of a byte string.
import PageSplice.Charset.Utf8

/-!
# SHA-256

The digest of FIPS 180-4: the message is padded to blocks of sixty-four bytes,
each block is expanded to sixty-four words, and the words are mixed one after
the other into a state of eight words.
-/

namespace PageSplice.Digest

/-- The eight words of the state. -/
structure State where
  a : UInt32
  b : UInt32
  c : UInt32
  d : UInt32
  e : UInt32
  f : UInt32
  g : UInt32
  h : UInt32

def State.start : State :=
  ⟨0x6a09e667, 0xbb67ae85, 0x3c6ef372, 0xa54ff53a, 0x510e527f, 0x9b05688c, 0x1f83d9ab, 0x5be0cd19⟩

/-- One constant for each of the sixty-four rounds. -/
def roundConstants : List UInt32 :=
  [0x428a2f98, 0x71374491, 0xb5c0fbcf, 0xe9b5dba5, 0x3956c25b, 0x59f111f1, 0x923f82a4, 0xab1c5ed5,
   0xd807aa98, 0x12835b01, 0x243185be, 0x550c7dc3, 0x72be5d74, 0x80deb1fe, 0x9bdc06a7, 0xc19bf174,
   0xe49b69c1, 0xefbe4786, 0x0fc19dc6, 0x240ca1cc, 0x2de92c6f, 0x4a7484aa, 0x5cb0a9dc, 0x76f988da,
   0x983e5152, 0xa831c66d, 0xb00327c8, 0xbf597fc7, 0xc6e00bf3, 0xd5a79147, 0x06ca6351, 0x14292967,
   0x27b70a85, 0x2e1b2138, 0x4d2c6dfc, 0x53380d13, 0x650a7354, 0x766a0abb, 0x81c2c92e, 0x92722c85,
   0xa2bfe8a1, 0xa81a664b, 0xc24b8b70, 0xc76c51a3, 0xd192e819, 0xd6990624, 0xf40e3585, 0x106aa070,
   0x19a4c116, 0x1e376c08, 0x2748774c, 0x34b0bcb5, 0x391c0cb3, 0x4ed8aa4a, 0x5b9cca4f, 0x682e6ff3,
   0x748f82ee, 0x78a5636f, 0x84c87814, 0x8cc70208, 0x90befffa, 0xa4506ceb, 0xbef9a3f7, 0xc67178f2]

/-- Turns the bits of `x` to the right by `n` places. -/
def rotate (x : UInt32) (n : UInt32) : UInt32 := (x >>> n) ||| (x <<< (32 - n))

/-- One round of mixing, with the round's constant and its word of the message. -/
def State.mix (s : State) (round : UInt32 × UInt32) : State :=
  let choice := (s.e &&& s.f) ^^^ ((~~~s.e) &&& s.g)
  let majority := (s.a &&& s.b) ^^^ (s.a &&& s.c) ^^^ (s.b &&& s.c)
  let t₁ := s.h + (rotate s.e 6 ^^^ rotate s.e 11 ^^^ rotate s.e 25) + choice + round.1 + round.2
  let t₂ := (rotate s.a 2 ^^^ rotate s.a 13 ^^^ rotate s.a 22) + majority
  ⟨t₁ + t₂, s.a, s.b, s.c, s.d + t₁, s.e, s.f, s.g⟩

def State.add (s t : State) : State :=
  ⟨s.a + t.a, s.b + t.b, s.c + t.c, s.d + t.d, s.e + t.e, s.f + t.f, s.g + t.g, s.h + t.h⟩

/-- Big-endian words of four bytes. -/
def wordsOf : Bytes → List UInt32
  | a :: b :: c :: d :: r =>
    (a.toUInt32 <<< 24 ||| b.toUInt32 <<< 16 ||| c.toUInt32 <<< 8 ||| d.toUInt32) :: wordsOf r
  | _ => []

/-- The four bytes of a word, big-endian. -/
def bytesOf (w : UInt32) : Bytes :=
  [(w >>> 24).toUInt8, (w >>> 16).toUInt8, (w >>> 8).toUInt8, w.toUInt8]

/-- Adds `count` words to a message schedule, which holds its latest word first. -/
def expand : Nat → List UInt32 → List UInt32
  | 0, w => w
  | count + 1, w =>
    let near := w.getD 1 0
    let far := w.getD 14 0
    let σ₀ := rotate far 7 ^^^ rotate far 18 ^^^ (far >>> 3)
    let σ₁ := rotate near 17 ^^^ rotate near 19 ^^^ (near >>> 10)
    expand count ((w.getD 15 0 + σ₀ + w.getD 6 0 + σ₁) :: w)

/-- The state after one block of sixteen words. -/
def State.absorb (s : State) (block : List UInt32) : State :=
  let schedule := (expand 48 block.reverse).reverse
  s.add ((roundConstants.zip schedule).foldl State.mix s)

/-- A one bit, zeros up to eight bytes short of a full block, and the length in bits. -/
def padding (length : Nat) : Bytes :=
  let bits := 8 * length
  0x80 :: List.replicate ((119 - length % 64) % 64) 0 ++
    bytesOf (bits / 0x100000000).toUInt32 ++ bytesOf bits.toUInt32

/-- Mixes whole blocks of sixteen words into the state, one after the other. -/
def absorbAll (s : State) (words : List UInt32) : State :=
  if words.isEmpty then s
  else absorbAll (s.absorb (words.take 16)) (words.drop 16)
termination_by words.length
decreasing_by
  cases words with
  | nil => simp_all
  | cons => simp only [List.length_drop, List.length_cons]; omega

/-- The SHA-256 digest of `message`: thirty-two bytes. -/
def sha256 (message : Bytes) : Bytes :=
  let s := absorbAll State.start (wordsOf (message ++ padding message.length))
  [s.a, s.b, s.c, s.d, s.e, s.f, s.g, s.h].flatMap bytesOf

-- ---------------------------------------------------------------------------
-- Digests of texts
-- ---------------------------------------------------------------------------

/-- The digest of a text in UTF-8, in hexadecimal. -/
def ofText (s : Text) : Text := Bytes.toHex (sha256 (Charset.Utf8.encode s))

/-- The first `length` digits of the digest of a text; a negative length leaves off that many
digits at the end. -/
def short (length : Int) (s : Text) : Text :=
  let digits := ofText s
  digits.take (if length < 0 then digits.length - length.natAbs else length.toNat)

end PageSplice.Digest

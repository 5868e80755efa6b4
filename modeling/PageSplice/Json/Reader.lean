-- SUMMARY: Reading JSON texts.
import PageSplice.Json.Value

/-!
# Reading JSON

The reader takes any JSON text. The members of an object stay in their order,
and a name that occurs twice stays twice. An escape of a UTF-16 code unit that
is one half of a pair must have the other half behind it. A number is an integer
unless a fraction or an exponent is written behind its digits; an integer with
too many digits is not read.
-/

namespace PageSplice.Json

def skipBlanks (s : Text) : Text :=
  s.dropWhile fun c => c = ' ' || c = '\t' || c = '\n' || c = '\r'

-- ---------------------------------------------------------------------------
-- Strings
-- ---------------------------------------------------------------------------

/-- The code unit that four hexadecimal digits at the front of a text write. -/
def readUnit? : Text → Option (Nat × Text)
  | a :: b :: c :: d :: r =>
    if [a, b, c, d].all Text.isHexDigit then some (Text.toNat 16 [a, b, c, d], r) else none
  | _ => none

theorem length_readUnit? {s rest : Text} {n : Nat} (h : readUnit? s = some (n, rest)) :
    rest.length < s.length := by
  unfold readUnit? at h
  split at h
  · split at h
    · simp only [Option.some.injEq, Prod.mk.injEq] at h
      simp only [← h.2, List.length_cons]
      omega
    · cases h
  · cases h

/-- The character that one code unit, or two of a pair, stand for. -/
def readCodePoint? (s : Text) : Option (Char × Text) :=
  match readUnit? s with
  | none => none
  | some (high, rest) =>
    if high < 0xD800 ∨ 0xDFFF < high then some (Char.ofNat high, rest)
    else
      match rest with
      | '\\' :: 'u' :: r =>
        match readUnit? r with
        | some (low, rest) =>
          if high < 0xDC00 ∧ 0xDC00 ≤ low ∧ low ≤ 0xDFFF then
            some (Char.ofNat (0x10000 + (high - 0xD800) * 0x400 + (low - 0xDC00)), rest)
          else none
        | none => none
      | _ => none

theorem length_readCodePoint? {s rest : Text} {c : Char}
    (h : readCodePoint? s = some (c, rest)) : rest.length < s.length := by
  unfold readCodePoint? at h
  split at h
  · cases h
  · rename_i high r hs
    have hr := length_readUnit? hs
    split at h
    · simp only [Option.some.injEq, Prod.mk.injEq] at h
      exact h.2 ▸ hr
    · split at h
      · rename_i r'
        split at h
        · rename_i low rest' hr'
          have hlow := length_readUnit? hr'
          split at h
          · simp only [Option.some.injEq, Prod.mk.injEq] at h
            simp only [List.length_cons, ← h.2] at *
            omega
          · cases h
        · cases h
      · cases h

/-- The characters of the escapes with one letter. -/
def letterEscapes : List (Char × Char) :=
  [('"', '"'), ('\\', '\\'), ('/', '/'), ('b', '\x08'), ('f', '\x0c'), ('n', '\n'), ('r', '\r'),
   ('t', '\t')]

/-- The character of the escape whose backslash stands in front of a text. -/
def readEscape? : Text → Option (Char × Text)
  | 'u' :: r => readCodePoint? r
  | c :: r => (letterEscapes.lookup c).map (·, r)
  | [] => none

theorem length_readEscape? {s rest : Text} {c : Char} (h : readEscape? s = some (c, rest)) :
    rest.length < s.length := by
  unfold readEscape? at h
  split at h
  · have := length_readCodePoint? h
    simp only [List.length_cons]
    omega
  · obtain ⟨_, _, h⟩ := Option.map_eq_some_iff.1 h
    simp only [Prod.mk.injEq] at h
    simp [h.2]
  · cases h

/-- The rest of a string, up to its closing quote. -/
def readString? (s : Text) : Option (Text × Text) :=
  match s with
  | [] => none
  | '"' :: r => some ([], r)
  | '\\' :: r =>
    match h : readEscape? r with
    | some (c, rest) =>
      have := length_readEscape? h
      (readString? rest).map fun (string, rest) => (c :: string, rest)
    | none => none
  | c :: r =>
    if c.toNat < 0x20 then none
    else (readString? r).map fun (string, rest) => (c :: string, rest)
termination_by s.length
decreasing_by all_goals (simp only [List.length_cons]; omega)

-- ---------------------------------------------------------------------------
-- Numbers and words
-- ---------------------------------------------------------------------------

/-- The digits of an integer at the front of a text; only zero itself begins with a zero. -/
def readNat? (s : Text) : Option (Nat × Text) :=
  let digits := s.takeWhile Char.isDigit
  if digits.isEmpty ∨ (digits.head? = some '0' ∧ digits ≠ ['0']) then none
  else some (Text.toNat 10 digits, s.dropWhile Char.isDigit)

/-- The digits of a fraction at the front of a text; none where there is no point with digits
behind it. -/
def readFraction : Text → Text × Text
  | '.' :: r =>
    if (r.takeWhile Char.isDigit).isEmpty then ([], '.' :: r)
    else (r.takeWhile Char.isDigit, r.dropWhile Char.isDigit)
  | s => ([], s)

/-- The exponent at the front of a text. -/
def readExponent? : Text → Option (Int × Text)
  | c :: r =>
    if c = 'e' ∨ c = 'E' then
      let digits := match r with
        | '+' :: digits | '-' :: digits => digits
        | digits => digits
      let value := Text.toNat 10 (digits.takeWhile Char.isDigit)
      if (digits.takeWhile Char.isDigit).isEmpty then none
      else some (if r.head? = some '-' then -(value : Int) else value, digits.dropWhile Char.isDigit)
    else none
  | [] => none

/-- A number without a sign at the front of a text, where `isNegative` says what sign it has. -/
def readMagnitude? (isNegative : Bool) (s : Text) : Option (Value × Text) :=
  match readNat? s with
  | none => none
  | some (n, rest) =>
    let (fraction, rest) := readFraction rest
    let coefficient := Text.toNat 10 (s.takeWhile Char.isDigit ++ fraction)
    let shift : Int := -fraction.length
    match readExponent? rest with
    | some (exponent, rest) =>
      some (.decimal (.ofDigits isNegative coefficient (exponent + shift)), rest)
    | none =>
      if fraction.isEmpty then
        if Text.fitsIn Text.maxDigits n then some (.int (if isNegative then -(n : Int) else n), rest)
        else none
      else some (.decimal (.ofDigits isNegative coefficient shift), rest)

def readNumber? : Text → Option (Value × Text)
  | '-' :: r => readMagnitude? true r
  | s => readMagnitude? false s

def words : List (Text × Value) :=
  [("null".toList, .null), ("true".toList, .bool true), ("false".toList, .bool false)]

def readAtom? (s : Text) : Option (Value × Text) :=
  (words.findSome? fun (word, v) => (word.isPrefixOf? s).map (v, ·)).or (readNumber? s)

-- ---------------------------------------------------------------------------
-- Values
-- ---------------------------------------------------------------------------

/-- The name of a member and the colon behind it. -/
def readName? (s : Text) : Option (Text × Text) :=
  match skipBlanks s with
  | '"' :: r =>
    match readString? r with
    | some (name, rest) =>
      match skipBlanks rest with
      | ':' :: rest => some (name, rest)
      | _ => none
    | none => none
  | _ => none

mutual

/-- A value at the front of a text. -/
def readValue? : Nat → Text → Option (Value × Text)
  | 0, _ => none
  | fuel + 1, s =>
    match skipBlanks s with
    | '"' :: r => (readString? r).map fun (string, rest) => (.str string, rest)
    | '[' :: r =>
      match skipBlanks r with
      | ']' :: rest => some (.arr [], rest)
      | r => (readItems? fuel r).map fun (items, rest) => (.arr items, rest)
    | '\x7b' :: r =>
      match skipBlanks r with
      | '\x7d' :: rest => some (.obj [], rest)
      | r => (readMembers? fuel r).map fun (members, rest) => (.obj members, rest)
    | r => readAtom? r

/-- The items of an array and the bracket that closes it. -/
def readItems? : Nat → Text → Option (List Value × Text)
  | 0, _ => none
  | fuel + 1, s =>
    match readValue? fuel s with
    | none => none
    | some (v, rest) =>
      match skipBlanks rest with
      | ',' :: rest => (readItems? fuel rest).map fun (items, rest) => (v :: items, rest)
      | ']' :: rest => some ([v], rest)
      | _ => none

/-- The members of an object and the brace that closes it. -/
def readMembers? : Nat → Text → Option (List (Text × Value) × Text)
  | 0, _ => none
  | fuel + 1, s =>
    match readName? s with
    | none => none
    | some (name, rest) =>
      match readValue? fuel rest with
      | none => none
      | some (v, rest) =>
        match skipBlanks rest with
        | ',' :: rest =>
          (readMembers? fuel rest).map fun (members, rest) => ((name, v) :: members, rest)
        | '\x7d' :: rest => some ([(name, v)], rest)
        | _ => none

end

/-- The value that a text writes. Every two steps of the reader take a character at least. -/
def Value.parse? (s : Text) : Option Value :=
  match readValue? (2 * s.length + 1) s with
  | some (v, rest) => if (skipBlanks rest).isEmpty then some v else none
  | none => none

end PageSplice.Json

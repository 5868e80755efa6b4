-- SUMMARY: Base64 VLQ: integers as self-delimiting digit strings.
import PageSplice.Base64

/-!
# Base64 VLQ

The fields of a source map's segments are integers of any size. The sign goes
into the lowest bit, the number is cut into groups of five bits with the lowest
first, and every group but the last carries a continuation bit.
-/

namespace PageSplice.SourceMap.Vlq

/-- Moves the sign into the lowest bit. -/
def foldSign (v : Int) : Nat := 2 * v.natAbs + (if v < 0 then 1 else 0)

/-- The groups of five bits, each but the last with the continuation bit. -/
def groups (n : Nat) : List Nat :=
  if n < 32 then [n] else (n % 32 + 32) :: groups (n / 32)
termination_by n
decreasing_by omega

def encode (v : Int) : Text := (groups (foldSign v)).map Base64.digit

/-- Takes the sign out of the lowest bit. -/
def unfoldSign (n : Nat) : Int := if n % 2 = 0 then (n / 2 : Nat) else -((n / 2 : Nat) : Int)

/-- The number whose groups the digits at the front of a text are. -/
def readGroups? : Text → Option (Nat × Text)
  | [] => none
  | c :: r =>
    match Base64.value? c with
    | none => none
    | some group =>
      if group < 32 then some (group, r)
      else (readGroups? r).map fun (n, rest) => (group % 32 + 32 * n, rest)

/-- The integer that the digits at the front of a text write, and what follows them. -/
def decode? (s : Text) : Option (Int × Text) :=
  (readGroups? s).map fun (n, rest) => (unfoldSign n, rest)

theorem length_readGroups? {s rest : Text} {n : Nat} (h : readGroups? s = some (n, rest)) :
    rest.length < s.length := by
  induction s generalizing n with
  | nil => simp [readGroups?] at h
  | cons c r ih =>
    unfold readGroups? at h
    split at h
    · cases h
    · split at h
      · simp_all
      · obtain ⟨⟨m, rest'⟩, hr, h⟩ := Option.map_eq_some_iff.1 h
        simp only [Prod.mk.injEq] at h
        have := ih (h.2 ▸ hr)
        simp only [List.length_cons]
        omega

theorem length_decode? {s rest : Text} {v : Int} (h : decode? s = some (v, rest)) :
    rest.length < s.length := by
  obtain ⟨⟨n, rest'⟩, hr, h⟩ := Option.map_eq_some_iff.1 h
  simp only [Prod.mk.injEq] at h
  exact length_readGroups? (h.2 ▸ hr)

theorem unfoldSign_foldSign (v : Int) : unfoldSign (foldSign v) = v := by
  unfold unfoldSign foldSign
  split <;> split <;> omega

theorem readGroups?_groups (n : Nat) (rest : Text) :
    readGroups? ((groups n).map Base64.digit ++ rest) = some (n, rest) := by
  fun_induction groups n with
  | case1 n h => simp [readGroups?, Base64.value?_digit (show n < 64 by omega), h]
  | case2 n h ih =>
    have hlt : n % 32 + 32 < 64 := by omega
    simp only [List.map_cons, List.cons_append, readGroups?, Base64.value?_digit hlt, ih,
      Option.map_some, if_neg (show ¬ n % 32 + 32 < 32 by omega)]
    congr 2
    omega

theorem decode?_encode_append (v : Int) (rest : Text) :
    decode? (encode v ++ rest) = some (v, rest) := by
  simp [decode?, encode, readGroups?_groups, unfoldSign_foldSign]

end PageSplice.SourceMap.Vlq

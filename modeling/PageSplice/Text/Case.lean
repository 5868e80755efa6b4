-- SUMMARY: The lower case of texts, and the letters that match an ASCII letter without regard to case.
import PageSplice.Text.CaseTable

/-!
# Letter case

`lower` is the full lower-case mapping of Unicode: every character has its own
lower case, apart from the dotted capital I, which becomes two characters, and
the capital sigma, which has a form of its own at the end of a word.
-/

namespace PageSplice.Text

/-- The lower case of one character on its own. -/
def lowerChar (c : Char) : Char :=
  if c.toNat < 0x80 then c.toLower
  else match CaseRange.lower.find? (·.contains c.toNat) with
    | some r => Char.ofNat ((c.toNat : Int) + r.shift).toNat
    | none => c

/-- Whether `c` is skipped in the search for a neighbouring letter. -/
def isCaseIgnorable (c : Char) : Bool := caseIgnorableRanges.any (·.contains c)

/-- Whether `c` is a letter with case. -/
def isCased (c : Char) : Bool := casedRanges.any (·.contains c)

/-- Whether the nearest character that is not skipped is a letter with case. -/
def meetsLetter (s : Text) : Bool :=
  match s.dropWhile isCaseIgnorable with
  | [] => false
  | c :: _ => isCased c

/-- The lower case of the text after `passed`, which is the text in front of it, reversed. -/
def lowerAfter (passed : Text) : Text → Text
  | [] => []
  | c :: r =>
    let here :=
      if c = '\u0130' then ['i', '\u0307']
      else if c = '\u03A3' then
        if meetsLetter passed && !meetsLetter r then ['\u03C2'] else ['\u03C3']
      else [lowerChar c]
    here ++ lowerAfter (c :: passed) r

def lower (s : Text) : Text := lowerAfter [] s

-- ---------------------------------------------------------------------------
-- Matching without regard to case
-- ---------------------------------------------------------------------------

/-- Whether `c` is the ASCII letter `letter`, given in lower case, when case is set aside. Four
letters outside ASCII fold to an ASCII letter: the long s, the Kelvin sign, and the dotted and the
dotless i. -/
def sameLetter (letter c : Char) : Bool :=
  c.toLower = letter ||
  (letter = 's' && c = '\u017F') || (letter = 'k' && c = '\u212A') ||
  (letter = 'i' && (c = '\u0130' || c = '\u0131'))

/-- Strips the lower-case ASCII word `word` off `s`, without regard to case. -/
def stripWord? : Text → Text → Option Text
  | [], s => some s
  | _ :: _, [] => none
  | w :: ws, c :: r => if sameLetter w c then stripWord? ws r else none

theorem stripWord?_isSuffix {word s rest : Text} (h : stripWord? word s = some rest) :
    rest <:+ s := by
  fun_induction stripWord? word s with
  | case1 s => simp_all
  | case2 => simp at h
  | case3 w ws c r hc ih => exact (ih h).trans (List.suffix_cons c r)
  | case4 => simp at h

end PageSplice.Text

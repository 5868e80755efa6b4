-- SUMMARY: Line ends: a single kind of them, and lines of output.
import PageSplice.Text.Basic

/-!
# Line ends

A file may end its lines in a line feed, in a carriage return or in both; its
text has line feeds only.
-/

namespace PageSplice.Text

/-- The text with a line feed for each line end. -/
def unifyNewlines : Text → Text
  | [] => []
  | '\r' :: '\n' :: r => '\n' :: unifyNewlines r
  | '\r' :: r => '\n' :: unifyNewlines r
  | c :: r => c :: unifyNewlines r

/-- The text with a line feed at its end, which is added where there is none. -/
def line (s : Text) : Text := if s.getLast? = some '\n' then s else s ++ ['\n']

end PageSplice.Text

-- SUMMARY: Source-map reference comments: recognising them, writing them, attaching a map to code.
import PageSplice.Charset.Utf8
import PageSplice.Json.Printer
import PageSplice.SourceMap.Line
import PageSplice.Text.Blank

/-!
# Source-map references

Code names its map in a comment that begins a line. A map that belongs to an
inline region travels inside the comment, as a base64 `data:` URL.
-/

namespace PageSplice.SourceMap

/-- Whether code is a script or a style sheet, which decides how its comments look. -/
inductive CommentStyle
  | script
  | css
  deriving DecidableEq, Repr

def referenceKey : Text := "sourceMappingURL=".toList

/-- Whether a reference stands at the front of `s`, after optional white space. -/
def startsReference (s : Text) : Bool :=
  match s.dropWhile Text.isBlank with
  | '/' :: c :: r =>
    (c = '/' || c = '*') &&
    match r.dropWhile Text.isBlank with
    | mark :: t => (mark = '#' || mark = '@') && referenceKey.isPrefixOf (t.dropWhile Text.isBlank)
    | [] => false
  | _ => false

/-- Whether a reference stands after one of the line ends of `s`. -/
def referenceAfterLineEnd : Text → Bool
  | [] => false
  | c :: r => (c = '\n' && startsReference r) || referenceAfterLineEnd r

/-- Whether `code` already refers to a source map: a reference comment begins at the start of the
code or after a line end. -/
def hasReference (code : Text) : Bool := startsReference code || referenceAfterLineEnd code

def dataUrl (map : SourceMap) : Text :=
  "data:application/json;charset=utf-8;base64,".toList ++
    Base64.encode (Charset.Utf8.encode (Json.Value.obj map).render)

def comment (style : CommentStyle) (map : SourceMap) : Text :=
  match style with
  | .script => "//# ".toList ++ referenceKey ++ dataUrl map
  | .css => "/*# ".toList ++ referenceKey ++ dataUrl map ++ " */".toList

/-- `code` with a reference to `map` on a line of its own at the end, unless it has a reference. -/
def attach (style : CommentStyle) (map : SourceMap) (code : Text) : Text :=
  if hasReference code then code
  else
    let separator := if Text.endsWith code ['\n'] then [] else ['\n']
    code ++ separator ++ comment style map ++ ['\n']

def printComment (style : CommentStyle) (map : SourceMap) : Except Json.PrintError Text := do
  (Json.Value.obj map).check
  return comment style map

/-- Attaches `map` to `code`. A map that is not needed need not be printed. -/
def printAttached (style : CommentStyle) (map : SourceMap) (code : Text) :
    Except Json.PrintError Text :=
  if hasReference code then .ok code
  else do
    (Json.Value.obj map).check
    return attach style map code

end PageSplice.SourceMap

-- SUMMARY: Reading the source map that a reference comment holds.
import PageSplice.Json.Reader
import PageSplice.SourceMap.Reference

/-!
# Embedded maps

A comment that refers to an embedded map holds it behind the word `base64,`, up
to the next space.
-/

namespace PageSplice.SourceMap

def payload? (comment : Text) : Option Text :=
  (Text.search ("base64,".toList.isPrefixOf? ·) comment).map (Text.before ' ')

def embedded? (comment : Text) : Option SourceMap := do
  let bytes ← Base64.decode? (← payload? comment)
  let json ← (Charset.Utf8.decode bytes).toOption
  match ← Json.Value.parse? json with
  | .obj members => some members
  | _ => none

end PageSplice.SourceMap

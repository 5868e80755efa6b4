-- SUMMARY: Responses: which of them hold a page, its markup, and the response that holds another page.
import PageSplice.Failure

/-!
# Responses

A response is a page where its content type says so and its body is there as a
whole. The body is a text under the charset that the response goes by, or under
UTF-8. How a site settles the charset of a response is its own matter.
-/

namespace PageSplice.Server

/-- A response of a site. -/
structure Response where
  /-- The `Content-Type` header. -/
  contentType : Option Text
  /-- The name of the charset that the response goes by; it may be empty. -/
  namedCharset : Text := []
  /-- The body; of a stream, what the stream yields. -/
  body : Bytes
  isStream : Bool := false
  /-- The `Content-Length` header. -/
  contentLength : Option Nat := none
  deriving DecidableEq, Repr

namespace Response

def isPage (r : Response) : Bool :=
  Text.occursIn "text/html".toList (r.contentType.getD []) && !r.isStream

-- ---------------------------------------------------------------------------
-- Charsets
-- ---------------------------------------------------------------------------

/-- The name of the charset of a body, which is UTF-8 where the response names none. -/
def charsetName (r : Response) : Text :=
  if r.namedCharset.isEmpty then "utf-8".toList else r.namedCharset

def charset (r : Response) : Except Failure Charset :=
  match Charset.ofName? r.charsetName with
  | some charset => .ok charset
  | none => .error (.unknownCharset r.charsetName)

-- ---------------------------------------------------------------------------
-- Bodies
-- ---------------------------------------------------------------------------

/-- The text of a body. An empty body is an empty text under any charset. -/
def text (r : Response) : Except Failure Text := do
  if r.body.isEmpty then return []
  ((← r.charset).decode r.body).mapError .undecodable

/-- The response with a text for its body, and the length to go with it. -/
def withText (r : Response) (text : Text) : Except Failure Response := do
  let body ← ((← r.charset).encode text).mapError .unencodable
  return { r with body, contentLength := some body.length }

end Response

end PageSplice.Server

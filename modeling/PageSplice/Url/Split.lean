-- SUMMARY: The scheme and the path of a URL, and what is wrong with its authority.
import PageSplice.Text.Quoted
import PageSplice.Url.Host

/-!
# URLs

Of a URL the library needs the scheme, which tells remote references from
files, and the path. The authority in between is only checked: brackets belong
to an address, and no character may turn into a separator when the name is
brought into compatibility form.
-/

namespace PageSplice.Url

/-- What can be wrong with the authority of a URL. -/
inductive Error
  | badBrackets
  | badFutureAddress
  | bracketedIPv4
  | notAnAddress (host : Text)
  | foldsToSeparator (authority : Text)
  deriving DecidableEq, Repr

/-- The wording of a URL error. -/
def Error.message : Error → Text
  | badBrackets => "Invalid IPv6 URL".toList
  | badFutureAddress => "IPvFuture address is invalid".toList
  | bracketedIPv4 => "An IPv4 address cannot be in brackets".toList
  | notAnAddress host =>
    Text.quoted host ++ " does not appear to be an IPv4 or IPv6 address".toList
  | foldsToSeparator authority =>
    "netloc '".toList ++ authority ++
      "' contains invalid characters under NFKC normalization".toList

/-- The parts of a URL. The scheme is in lower case and empty where there is none. -/
structure Parts where
  scheme : Text
  path : Text
  deriving DecidableEq, Repr

def isSchemeChar (c : Char) : Bool := c.isAlphanum || c = '+' || c = '-' || c = '.'

/-- The scheme in lower case, and what follows its colon; an empty scheme and everything where no
scheme stands at the front. -/
def splitScheme (s : Text) : Text × Text :=
  let scheme := Text.before ':' s
  match scheme, Text.after? ':' s with
  | c :: _, some rest =>
    if c.isAlpha && scheme.all isSchemeChar then (scheme.map Char.toLower, rest) else ([], s)
  | _, _ => ([], s)

/-- Checks a host that stands in brackets. -/
def checkBracketedHost (host : Text) : Except Error Unit :=
  if host.head? = some 'v' then
    if isFutureAddress host then .ok () else .error .badFutureAddress
  else if isIPv4 host then .error .bracketedIPv4
  else if isIPv6 host then .ok ()
  else .error (.notAnAddress host)

/-- Checks an authority that holds brackets of both kinds. -/
def checkBracketed (authority : Text) : Except Error Unit :=
  let hostAndPort := Text.afterLast '@' authority
  match Text.after? '[' hostAndPort with
  | none => checkBracketedHost (Text.before ':' hostAndPort)
  | some bracketed =>
    if Text.before '[' hostAndPort ≠ [] then .error .badBrackets
    else
      let behind := (Text.after? ']' bracketed).getD []
      if behind ≠ [] ∧ behind.head? ≠ some ':' then .error .badBrackets
      else checkBracketedHost (Text.before ']' bracketed)

/-- Characters that compatibility normalization turns into a text with a separator of URLs. -/
def foldsToSeparator (c : Char) : Bool :=
  c ∈ ['\u2047', '\u2048', '\u2049', '\u2100', '\u2101', '\u2105', '\u2106', '\u2a74', '\ufe13',
    '\ufe16', '\ufe55', '\ufe56', '\ufe5f', '\ufe6b', '\uff03', '\uff0f', '\uff1a', '\uff1f',
    '\uff20']

def checkAuthority (authority : Text) : Except Error Unit := do
  let opening := authority.contains '['
  let closing := authority.contains ']'
  if opening != closing then throw .badBrackets
  if opening then checkBracketed authority
  if authority.any foldsToSeparator then throw (.foldsToSeparator authority)

/-- Splits a URL. Control characters and blanks at the front are ignored, tabs and line ends
everywhere. -/
def split (s : Text) : Except Error Parts := do
  let s := (s.dropWhile fun c => c.toNat ≤ 0x20).filter fun c => !(c = '\t' || c = '\r' || c = '\n')
  let (scheme, rest) := splitScheme s
  let isAuthority := fun c => !(c = '/' || c = '?' || c = '#')
  let rest ← match rest with
    | '/' :: '/' :: r => do
      checkAuthority (r.takeWhile isAuthority)
      pure (r.dropWhile isAuthority)
    | _ => pure rest
  return ⟨scheme, Text.before '?' (Text.before '#' rest)⟩

end PageSplice.Url

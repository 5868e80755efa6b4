-- SUMMARY: Internet addresses in the brackets of a URL's host.
import PageSplice.Text.Basic

/-!
# Bracketed hosts

The host of a URL may stand in brackets when it is an IPv6 address, with an
optional zone after a percent sign, or an address of a later version.
-/

namespace PageSplice.Url

/-- Whether `s` is one of the four numbers of an IPv4 address: at most 255, without leading
zeros. -/
def isOctet (s : Text) : Bool :=
  s ≠ [] && s.all Char.isDigit && s.length ≤ 3 && (s = ['0'] || s.head? ≠ some '0') &&
  Text.toNat 10 s ≤ 255

def isIPv4 (s : Text) : Bool :=
  let parts := Text.splitOn '.' s
  parts.length = 4 && parts.all isOctet

/-- Whether `s` is a group of an IPv6 address: up to four hexadecimal digits. -/
def isGroup (s : Text) : Bool := s ≠ [] && s.length ≤ 4 && s.all Text.isHexDigit

/-- The groups of an IPv6 address that ends in an IPv4 address, which counts for two groups. -/
def expandIPv4Suffix (groups : List Text) : Option (List Text) :=
  let last := groups.getLastD []
  if last.contains '.' then
    if isIPv4 last then some (groups.dropLast ++ [['0'], ['0']]) else none
  else some groups

/-- Whether the colon-separated parts of an address form one. An empty part inside stands for a run
of zero groups, of which there may be one; an empty part at an end must touch such a run. -/
def areGroups (parts : List Text) : Bool :=
  let inner := (parts.drop 1).dropLast
  if parts.length > 9 then false
  else match (inner.zipIdx.filter fun part => part.1 = []).map (·.2) with
    | [] => parts.length = 8 && parts.all isGroup
    | [i] =>
      let high := parts.take (i + 1)
      let low := parts.drop (i + 2)
      let high := if high = [[]] then [] else high
      let low := if low = [[]] then [] else low
      high.all isGroup && low.all isGroup && high.length + low.length < 8
    | _ => false

/-- Whether `s` is an IPv6 address, with or without a zone. -/
def isIPv6 (s : Text) : Bool :=
  let zoneOk := match Text.after? '%' s with
    | none => true
    | some zone => zone ≠ [] && !zone.contains '%'
  let parts := Text.splitOn ':' (Text.before '%' s)
  zoneOk && !s.contains '/' && parts.length ≥ 3 &&
  match expandIPv4Suffix parts with
  | none => false
  | some groups => areGroups groups

/-- Whether `s` is an address of a later version: `v`, a hexadecimal version, a dot and text. -/
def isFutureAddress (s : Text) : Bool :=
  match s with
  | 'v' :: r =>
    let version := r.takeWhile Text.isHexDigit
    match r.dropWhile Text.isHexDigit with
    | '.' :: rest => version ≠ [] && rest ≠ [] && !rest.contains '\n'
    | _ => false
  | _ => false

end PageSplice.Url

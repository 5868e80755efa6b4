-- SUMMARY: The attributes of an element: look-up by name, first occurrences, setting, and the text of a set attribute.
import PageSplice.Html.StartTag

/-!
# Attributes

An element's attributes are looked up by their lower-case names and keep the
order of their first occurrences. Setting one changes the text of the start
tag: an attribute that stands there is replaced at its place, and all other
characters stay as they are.
-/

namespace PageSplice.Html

/-- Attributes by lower-case name; no name occurs twice. -/
abbrev Attributes := List (Text × Option Text)

namespace Attributes

/-- Sets the attribute `name`, at its place or behind all others. -/
def set (name : Text) (value : Option Text) : Attributes → Attributes
  | [] => [(name, value)]
  | (n, v) :: rest => if n = name then (n, value) :: rest else (n, v) :: set name value rest

/-- The attributes of a tag. The first occurrence of a name counts. -/
def ofTag : List (Text × Option Text) → Attributes → Attributes
  | [], found => found
  | (name, value) :: rest, found =>
    ofTag rest (if (found.lookup name).isSome then found else found ++ [(name, value)])

/-- The value of the attribute `name`; `none` where it is missing or has no value. -/
def value? (attributes : Attributes) (name : Text) : Option Text :=
  (attributes.lookup name).join

/-- Whether the attribute `name` is there, with or without a value. -/
def contains (attributes : Attributes) (name : Text) : Bool := (attributes.lookup name).isSome

end Attributes

-- ---------------------------------------------------------------------------
-- Attributes in the text of a tag
-- ---------------------------------------------------------------------------

namespace TagText

/-- Whether `c` may stand in the name of an attribute whose text can be replaced. -/
def isNameChar (c : Char) : Bool :=
  !(Text.isBlank c || c = '/' || c = '>' || c = '"' || c = '\'' || c = '=')

/-- Strips the quoted text that `s` begins with. -/
def stripQuoted? : Text → Option Text
  | [] => none
  | c :: r =>
    if StartTag.isQuote c then
      match r.dropWhile (· ≠ c) with
      | [] => none
      | _ :: rest => some rest
    else none

/-- What follows the equals sign and the value at the front of `s`; all of `s` where there is no
value. -/
def skipValue (s : Text) : Text :=
  match s.dropWhile Text.isBlank with
  | '=' :: r =>
    let r := r.dropWhile Text.isBlank
    match stripQuoted? r with
    | some rest => rest
    | none =>
      let rest := r.dropWhile StartTag.isBareChar
      if rest.length < r.length then rest else s
  | _ => s

theorem stripQuoted?_isSuffix {s rest : Text} (h : stripQuoted? s = some rest) : rest <:+ s := by
  unfold stripQuoted? at h
  split at h
  · simp at h
  · rename_i c r
    split at h
    · split at h
      · simp at h
      · rename_i d t hd
        simp only [Option.some.injEq] at h
        exact h ▸ ((List.suffix_cons d t).trans (hd ▸ List.dropWhile_suffix _)).trans
          (List.suffix_cons c r)
    · simp at h

theorem skipValue_isSuffix (s : Text) : skipValue s <:+ s := by
  unfold skipValue
  split
  · rename_i r hr
    have hsigns : '=' :: r <:+ s := hr ▸ List.dropWhile_suffix _
    have hvalue : r.dropWhile Text.isBlank <:+ s :=
      ((List.dropWhile_suffix _).trans (List.suffix_cons _ r)).trans hsigns
    simp only
    split
    · rename_i h
      exact (stripQuoted?_isSuffix h).trans hvalue
    · split
      · exact (List.dropWhile_suffix _).trans hvalue
      · exact List.suffix_refl _
  · exact List.suffix_refl _

/-- The first attribute called `name` in `s`: the text from the attribute on, and the text behind
it. -/
def find? (name : Text) (s : Text) : Option (Text × Text) :=
  match s with
  | [] => none
  | c :: r =>
    if isNameChar c then
      let rest := skipValue (r.dropWhile isNameChar)
      if Text.lower (c :: r.takeWhile isNameChar) = name then some (c :: r, rest)
      else find? name rest
    else find? name r
termination_by s.length
decreasing_by
  · have := ((skipValue_isSuffix _).trans (List.dropWhile_suffix isNameChar (l := r))).length_le
    simp only [List.length_cons]
    omega
  · simp

/-- Whether `c` may stand in the name of an element, in the text of a tag. -/
def isElementChar (c : Char) : Bool := !(Text.isBlank c || c = '/' || c = '>')

def afterElementName (tag : Text) : Text :=
  match tag with
  | '<' :: r => if (r.takeWhile isElementChar).isEmpty then tag else r.dropWhile isElementChar
  | _ => tag

def render (name value : Text) : Text :=
  name ++ "=\"".toList ++ CharRef.escape value ++ "\"".toList

/-- The text of `tag` with the attribute `name` set to `value`. A new attribute comes last, behind
a single space. -/
def setAttribute (name value tag : Text) : Text :=
  match find? name (afterElementName tag) with
  | some (here, rest) => Text.upTo tag here ++ render name value ++ rest
  | none =>
    let close := tag.length - (if Text.endsWith tag "/>".toList then 2 else 1)
    Text.trimRight Text.isBlank (tag.take close) ++ ' ' :: render name value ++ tag.drop close

end TagText

end PageSplice.Html

-- SUMMARY: Documents: the elements of a text of markup with the places of their start tags and bodies.
import PageSplice.Html.Attributes
import PageSplice.Html.Position
import PageSplice.Html.Scan

/-!
# Documents

A document is a text of markup with its elements in the order of their start
tags. An element knows where its start tag and its body stand: the reader of the
tokens keeps line and column, and an offset is worked out from them where it is
needed. An end tag closes the nearest open element of its name; elements that are
still open inside of it stay unclosed.

Start tags and bodies can be given a new text. Nothing else changes: writing a
document gives back the markup with the new texts at their places.
-/

namespace PageSplice.Html

-- ---------------------------------------------------------------------------
-- Elements
-- ---------------------------------------------------------------------------

/-- An element of a document. -/
structure Element where
  /-- The start tag as it stands in the markup. -/
  startTag : StartTag
  /-- The offset of the start tag. -/
  start : Nat
  /-- The offset of the end tag; `none` for an element that is not closed. -/
  bodyEnd : Option Nat
  /-- Whether another element begins in the body. -/
  hasChildren : Bool
  /-- The attributes, with the changes made to them. -/
  attributes : Attributes
  /-- The text that takes the place of the start tag. -/
  newTag : Option Text
  /-- The text that takes the place of the body. -/
  newBody : Option Text
  deriving DecidableEq, Repr

namespace Element

def tag (e : Element) : Text := e.startTag.name

def bodyStart (e : Element) : Nat := e.start + e.startTag.source.length

theorem start_lt_bodyStart (e : Element) : e.start < e.bodyStart := by
  simp [bodyStart, StartTag.source]

def isClosed (e : Element) : Bool := e.bodyEnd.isSome

/-- The text of the start tag, with the changes made to it. -/
def startText (e : Element) : Text := e.newTag.getD e.startTag.source

/-- The value of the attribute `name`, in letters of either case. -/
def value? (e : Element) (name : Text) : Option Text := e.attributes.value? (Text.lower name)

def hasAttribute (e : Element) (name : Text) : Bool := e.attributes.contains (Text.lower name)

def setAttribute (name value : Text) (e : Element) : Element :=
  let name := Text.lower name
  { e with
    attributes := e.attributes.set name (some value)
    newTag := some (TagText.setAttribute name value e.startText) }

def describe (e : Element) : Text :=
  "<Element ".toList ++ e.tag ++ " at ".toList ++ Text.ofNat e.start ++ ">".toList

end Element

-- ---------------------------------------------------------------------------
-- Elements from tokens
-- ---------------------------------------------------------------------------

def voidElements : List Text :=
  ["area", "base", "br", "col", "embed", "hr", "img", "input", "link", "meta", "param", "source",
   "track", "wbr"].map String.toList

/-- A reader of tokens, with the elements of those that it has read. -/
structure Reader where
  /-- The offsets of the lines of the markup. -/
  lineStarts : List Nat
  /-- Where the next token begins. -/
  position : Position
  elements : List Element
  /-- The open elements with their names and indices, the innermost first. -/
  stack : List (Text × Nat)

namespace Reader

def ofMarkup (markup : Text) : Reader := ⟨Html.lineStarts markup, .start, [], []⟩

def offset (r : Reader) : Nat := r.position.offset r.lineStarts

/-- Reads a start tag. The element becomes a child of the innermost open one; it has an empty body
where its tag ends in `/>`. -/
def addElement (r : Reader) (tag : StartTag) : Reader :=
  let bodyEnd := if tag.selfClosing then some (r.offset + tag.source.length) else none
  let element : Element :=
    ⟨tag, r.offset, bodyEnd, false, Attributes.ofTag tag.attributes [], none, none⟩
  let marked := match r.stack with
    | [] => r.elements
    | (_, parent) :: _ => r.elements.modify parent fun e => { e with hasChildren := true }
  { r with
    elements := marked ++ [element]
    stack :=
      if tag.selfClosing || voidElements.contains tag.name then r.stack
      else (tag.name, r.elements.length) :: r.stack }

/-- Reads an end tag: the nearest open element of that name is closed, and those inside of it are
open no more. -/
def closeElement (r : Reader) (name : Text) : Reader :=
  match r.stack.dropWhile fun entry => entry.1 ≠ name with
  | [] => r
  | (_, index) :: outer =>
    { r with
      elements := r.elements.modify index fun e => { e with bodyEnd := some r.offset }
      stack := outer }

/-- Does what a token says where it begins. -/
def handle (r : Reader) : Token → Reader
  | .inert _ => r
  | .start tag => r.addElement tag
  | .close name _ => r.closeElement name

def read (r : Reader) (t : Token) : Reader :=
  { r.handle t with position := r.position.advance t.source }

end Reader

-- ---------------------------------------------------------------------------
-- Documents
-- ---------------------------------------------------------------------------

/-- A text of markup with its elements. -/
structure Document where
  markup : Text
  elements : List Element
  deriving DecidableEq, Repr

/-- What is given as markup: a text, or a value of another kind. -/
inductive Source
  | text (markup : Text)
  | other (kind : Text)
  deriving DecidableEq, Repr

inductive Malformation
  | notText (kind : Text)
  | scan (error : ScanError)
  | unterminated (tag : Text) (line : Nat)
  deriving DecidableEq, Repr

def Malformation.message : Malformation → Text
  | notText kind => "Expected HTML text, got ".toList ++ kind
  | scan error => "Could not parse HTML: ".toList ++ error.message
  | unterminated tag line =>
    "Unterminated <".toList ++ tag ++ "> element on line ".toList ++ Text.ofNat line

namespace Document

/-- The first script or style element that is not closed. -/
def unterminated? (elements : List Element) : Option Element :=
  elements.find? fun e => (RawElement.ofName? e.tag).isSome && !e.isClosed

def elementsOf (markup : Text) (tokens : List Token) : List Element :=
  (tokens.foldl Reader.read (.ofMarkup markup)).elements

def ofElements (markup : Text) (elements : List Element) : Except Malformation Document :=
  match unterminated? elements with
  | some e => .error (.unterminated e.tag ((markup.take e.start).count '\n' + 1))
  | none => .ok ⟨markup, elements⟩

def parse (markup : Text) : Except Malformation Document :=
  match tokensOf markup with
  | .error e => .error (.scan e)
  | .ok tokens => ofElements markup (elementsOf markup tokens)

theorem markup_of_parse {markup : Text} {d : Document} (h : parse markup = .ok d) :
    d.markup = markup := by
  unfold parse at h
  split at h
  · cases h
  · unfold ofElements at h
    split at h
    · cases h
    · exact (Except.ok.inj h) ▸ rfl

def read : Source → Except Malformation Document
  | .text markup => parse markup
  | .other kind => .error (.notText kind)

/-- The indices of the elements called `tag`, in letters of either case. -/
def query (d : Document) (tag : Text) : List Nat :=
  let tag := Text.lower tag
  (d.elements.zipIdx.filter fun e => e.1.tag = tag).map (·.2)

/-- The body of an element as it stands in the markup; empty for one that is not closed. -/
def body (d : Document) (e : Element) : Text :=
  match e.bodyEnd with
  | some bodyEnd => Text.slice d.markup e.bodyStart bodyEnd
  | none => []

/-- The body of an element, with the changes made to it. -/
def text (d : Document) (e : Element) : Text := e.newBody.getD (d.body e)

theorem length_body_lt {d : Document} {e : Element} (h : d.body e ≠ []) :
    (d.body e).length < d.markup.length := by
  have hpos := List.length_pos_iff.2 h
  have hstart := e.start_lt_bodyStart
  unfold body at hpos ⊢
  cases hend : e.bodyEnd with
  | none => simp [hend] at hpos
  | some bodyEnd =>
    simp only [hend, Text.length_slice] at hpos ⊢
    omega

-- ---------------------------------------------------------------------------
-- Changes
-- ---------------------------------------------------------------------------

def setAttribute (d : Document) (index : Nat) (name value : Text) : Document :=
  { d with elements := d.elements.modify index (Element.setAttribute name value) }

inductive BodyError
  | notClosed (tag : Text) (start : Nat)
  | hasChildren (tag : Text) (start : Nat)
  deriving DecidableEq, Repr

def BodyError.message : BodyError → Text
  | notClosed tag start =>
    "<".toList ++ tag ++ "> at offset ".toList ++ Text.ofNat start ++
      " has no closing tag".toList
  | hasChildren tag start =>
    "<".toList ++ tag ++ "> at offset ".toList ++ Text.ofNat start ++
      " has child elements".toList

/-- Replaces the body of the element at `index`, which must be closed and without children. -/
def setBody (d : Document) (index : Nat) (body : Text) : Except BodyError Document :=
  match d.elements[index]? with
  | none => .ok d
  | some e =>
    if !e.isClosed then .error (.notClosed e.tag e.start)
    else if e.hasChildren then .error (.hasChildren e.tag e.start)
    else .ok { d with
      elements := d.elements.modify index fun e => { e with newBody := some body } }

-- ---------------------------------------------------------------------------
-- Writing
-- ---------------------------------------------------------------------------

/-- A stretch of the markup and the text that takes its place. -/
structure Edit where
  start : Nat
  stop : Nat
  replacement : Text
  deriving DecidableEq, Repr

def editsOf (e : Element) : List Edit :=
  (e.newTag.map fun text => ⟨e.start, e.bodyStart, text⟩).toList ++
    (e.newBody.map fun text => ⟨e.bodyStart, e.bodyEnd.getD e.bodyStart, text⟩).toList

def edits (d : Document) : List Edit := d.elements.flatMap editsOf

def isModified (d : Document) : Bool := !d.edits.isEmpty

/-- The markup from offset `cursor` on, with the edits at their places. -/
def splice (markup : Text) (cursor : Nat) : List Edit → Text
  | [] => markup.drop cursor
  | edit :: rest =>
    Text.slice markup cursor edit.start ++ edit.replacement ++ splice markup edit.stop rest

def serialize (d : Document) : Text := splice d.markup 0 d.edits

end Document

end PageSplice.Html

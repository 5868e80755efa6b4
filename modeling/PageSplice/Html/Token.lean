-- SUMMARY: Markup as a list of tokens: start tags, end tags, and text that opens and closes nothing.
import PageSplice.Html.StartTag
import PageSplice.Text.Quoted

/-!
# Tokens

Markup is cut into tokens whose sources, put together again, are the markup.
Only tags matter to the structure of a document; character data, references,
comments and declarations are inert.

A token that the markup leaves unfinished is looked at twice. The first pass
stops in front of it; the second, which starts there, skips it as text. A
reference by number that is not well-formed stops a pass in the same way, and
what the second pass leaves is inert.
-/

namespace PageSplice.Html

-- ---------------------------------------------------------------------------
-- Token kinds
-- ---------------------------------------------------------------------------

/-- The elements whose body is raw text: nothing but their own end tag is markup there. -/
inductive RawElement
  | script
  | style
  deriving DecidableEq, Repr

namespace RawElement

def name : RawElement → Text
  | script => "script".toList
  | style => "style".toList

def ofName? (name : Text) : Option RawElement :=
  if name = script.name then some script
  else if name = style.name then some style
  else none

end RawElement

/-- A complete start tag. Attributes stand in the order of the markup, repeated ones too. -/
structure StartTag where
  /-- The text of the tag behind its first character, `<`. -/
  interior : Text
  name : Text
  attributes : List (Text × Option Text)
  /-- Whether the tag ends in `/>`. -/
  selfClosing : Bool
  deriving DecidableEq, Repr

def StartTag.source (tag : StartTag) : Text := '<' :: tag.interior

inductive Token
  | inert (source : Text)
  | start (tag : StartTag)
  | close (name source : Text)
  deriving DecidableEq, Repr

def Token.source : Token → Text
  | inert source => source
  | start tag => tag.source
  | close _ source => source

/-- The raw text element whose body follows the token, where `raw` is the one whose body the token
stands in. -/
def Token.rawAfter (raw : Option RawElement) : Token → Option RawElement
  | inert _ => raw
  | start tag => if tag.selfClosing then none else RawElement.ofName? tag.name
  | close _ _ => none

/-- Why markup cannot be cut into tokens. -/
inductive ScanError
  | sectionWithoutName (excerpt : Text)
  | unknownSection (excerpt : Text)
  | overlongReference (digits : Nat)
  deriving DecidableEq, Repr

/-- The wording of a scan error. -/
def ScanError.message : ScanError → Text
  | sectionWithoutName excerpt => "expected name token at ".toList ++ Text.quoted excerpt
  | unknownSection excerpt =>
    "unknown status keyword ".toList ++ Text.quoted excerpt ++ " in marked section".toList
  | overlongReference digits =>
    "Exceeds the limit (".toList ++ Text.ofNat Text.maxDigits ++
      " digits) for integer string conversion: value has ".toList ++ Text.ofNat digits ++
      " digits; use sys.set_int_max_str_digits() to increase the limit".toList

/-- What a pass does at the front of the text that is left. -/
inductive Step
  | token (t : Token) (rest : Text)
  | stop (skipped rest : Text)
  deriving DecidableEq, Repr

namespace Step

/-- The inert token that ends where `rest` begins. -/
def inert (s rest : Text) : Step := .token (.inert (Text.upTo s rest)) rest

/-- Whether the step is faithful to the text `s`: the source of a token is not empty, and source
and rest make up `s`. -/
def Cuts (s : Text) : Step → Prop
  | token t rest => t.source ≠ [] ∧ t.source ++ rest = s
  | stop skipped rest => skipped ++ rest = s

theorem cuts_inert {s rest : Text} (h : rest <:+ s) (hlt : rest.length < s.length) :
    (inert s rest).Cuts s := by
  have happ := Text.upTo_append h
  refine ⟨fun hnil => ?_, happ⟩
  have hsource : Text.upTo s rest = [] := hnil
  rw [hsource, List.nil_append] at happ
  exact absurd hlt (by simp [happ])

theorem cuts_inert_cons {c : Char} {s rest : Text} (h : rest <:+ s) :
    (inert (c :: s) rest).Cuts (c :: s) :=
  cuts_inert (h.trans (List.suffix_cons c s)) (Nat.lt_succ_of_le h.length_le)

end Step

-- ---------------------------------------------------------------------------
-- References in character data
-- ---------------------------------------------------------------------------

/-- What follows the reference by number whose text behind `&#` is `s`. The character behind the
digits must be there and be no hexadecimal digit; a semicolon belongs to the reference. -/
def afterNumber? (s : Text) : Option Text :=
  match s with
  | [] => none
  | c :: r =>
    if c.isDigit then
      match (c :: r).dropWhile Char.isDigit with
      | [] => none
      | d :: t => if Text.isHexDigit d then none else some (CharRef.skipSemicolon (d :: t))
    else if (c = 'x' ∨ c = 'X') ∧ (r.head?.map Text.isHexDigit).getD false then
      match r.dropWhile Text.isHexDigit with
      | [] => none
      | d :: t => some (CharRef.skipSemicolon (d :: t))
    else none

def isEntityChar (c : Char) : Bool := c.isAlphanum || c = '-' || c = '.'

/-- What follows the entity reference whose text behind `&` is `s`. Where the name runs to the end
of the text, the reference ends in front of its last hyphen or dot. -/
def afterEntity? (s : Text) : Option Text :=
  if (s.head?.map Char.isAlpha).getD false then
    match s.dropWhile isEntityChar with
    | [] =>
      let tail := s.reverse.takeWhile Char.isAlphanum
      if tail.length < s.length then some (s.drop (s.length - tail.length - 1)) else none
    | d :: t => some (CharRef.skipSemicolon (d :: t))
  else none

/-- The step at a text that begins with `&` and goes on with `s`. -/
def ampersandStep (last : Bool) (s : Text) : Step :=
  match s with
  | '#' :: r =>
    match afterNumber? r with
    | some rest => .inert ('&' :: s) rest
    | none => if r.contains ';' then .stop ['&', '#'] r else .stop [] ('&' :: s)
  | _ =>
    match afterEntity? s with
    | some rest => .inert ('&' :: s) rest
    | none =>
      match s with
      | [] => .stop [] ('&' :: s)
      | c :: r =>
        if c.isAlpha then
          if last && r.isEmpty then .stop ['&'] s else .stop [] ('&' :: s)
        else .inert ('&' :: s) s

-- ---------------------------------------------------------------------------
-- Comments and declarations
-- ---------------------------------------------------------------------------

/-- Strips white space and then `>`. -/
def blanksThenClose? (s : Text) : Option Text :=
  match s.dropWhile Text.isBlank with
  | '>' :: rest => some rest
  | _ => none

def commentEnd? : Text → Option Text
  | '-' :: '-' :: r => blanksThenClose? r
  | _ => none

def conditionalEnd? : Text → Option Text
  | ']' :: r => blanksThenClose? r
  | _ => none

def sectionEnd? : Text → Option Text
  | ']' :: r => conditionalEnd? (r.dropWhile Text.isBlank)
  | _ => none

def sectionKeywords : List Text :=
  ["temp", "cdata", "ignore", "include", "rcdata"].map String.toList

def conditionalKeywords : List Text := ["if", "else", "endif"].map String.toList

def isKeywordChar (c : Char) : Bool := c.isAlphanum || c = '-' || c = '_' || c = '.'

/-- What follows the section `markup`, whose text behind `<![` is `s`; `none` where it is not
finished. -/
def afterSection? (markup s : Text) : Except ScanError (Option Text) :=
  match s with
  | [] => .ok none
  | c :: _ =>
    if !c.isAlpha then .error (.sectionWithoutName (markup.take 20))
    else
      let keyword := (s.takeWhile isKeywordChar).map Char.toLower
      let rest := (s.dropWhile isKeywordChar).dropWhile Text.isBlank
      if rest.isEmpty then .ok none
      else if sectionKeywords.contains keyword then .ok (Text.search sectionEnd? s)
      else if conditionalKeywords.contains keyword then .ok (Text.search conditionalEnd? s)
      else .error (.unknownSection (Text.upTo s rest))

/-- What follows the comment or declaration whose text behind `<!` is `s`. -/
def afterDeclaration? (s : Text) : Except ScanError (Option Text) :=
  match s with
  | '-' :: '-' :: r => .ok (Text.search commentEnd? r)
  | '[' :: r => afterSection? ('<' :: '!' :: s) r
  | _ => .ok (Text.after? '>' s)

-- ---------------------------------------------------------------------------
-- Tags
-- ---------------------------------------------------------------------------

def isPlainNameChar (c : Char) : Bool :=
  c.isAlphanum || c = '-' || c = '.' || c = ':' || c = '_'

/-- The name of the plain end tag whose text behind `</` is `s`: a name of ASCII characters with
nothing but white space around it. -/
def plainCloseName? (s : Text) : Option Text :=
  let s := s.dropWhile Text.isBlank
  if (s.head?.map Char.isAlpha).getD false &&
      (blanksThenClose? (s.dropWhile isPlainNameChar)).isSome then
    some ((s.takeWhile isPlainNameChar).map Char.toLower)
  else none

/-- The name of the end tag whose text behind `</` is `s`. A tag that is not plain has a name where
a letter follows the slash. -/
def closeName? (s : Text) : Option Text :=
  (plainCloseName? s).or <|
    if (s.head?.map Char.isAlpha).getD false
    then some (Text.lower (s.takeWhile StartTag.isNameChar))
    else none

/-- The step at an end tag whose text behind `</` is `s`; `none` where it is not finished. An end
tag without a name is inert. -/
def closeStep? (s : Text) : Option Step :=
  (Text.after? '>' s).map fun rest =>
    let source := Text.upTo ('<' :: '/' :: s) rest
    match closeName? s with
    | some name => .token (.close name source) rest
    | none => .token (.inert source) rest

/-- The step at a start tag whose text behind `<` is `s`; `none` where it is not finished. A tag
that a NUL character breaks off is inert. -/
def startStep? (s : Text) : Except ScanError (Option Step) :=
  let head := (StartTag.scanHead s).1
  let finish := fun (selfClosing : Bool) (rest : Text) =>
    match head.attributes.mapM StartTag.resolveAttribute with
    | .error e => Except.error (ScanError.overlongReference e.digits)
    | .ok attributes =>
      .ok (some (Step.token (.start ⟨Text.upTo s rest, head.name, attributes, selfClosing⟩) rest))
  match (StartTag.scanHead s).2 with
  | [] => .ok none
  | '>' :: rest => finish false rest
  | '/' :: '>' :: rest => finish true rest
  | c :: rest =>
    if c.isAlpha || c = '=' || c = '/' then .ok none
    else match head.attributes.mapM StartTag.resolveAttribute with
      | .error e => .error (.overlongReference e.digits)
      | .ok _ => .ok (some (Step.inert ('<' :: s) (c :: rest)))

-- ---------------------------------------------------------------------------
-- One step
-- ---------------------------------------------------------------------------

/-- What the last pass does with unfinished markup, whose text behind `<` is `s`: it is inert up to
the next `>`, else up to the next `<`, else for one character. -/
def unfinishedStep (s : Text) : Step :=
  match Text.after? '>' s with
  | some rest => .inert ('<' :: s) rest
  | none =>
    match s.dropWhile (· ≠ '<') with
    | [] => .inert ('<' :: s) s
    | rest => .inert ('<' :: s) rest

/-- The step at a finished piece of markup whose text behind `<` is `s`; `none` where it is not
finished. -/
def markupStep? (s : Text) : Except ScanError (Option Step) :=
  match s with
  | [] => .ok (some (.stop [] ['<']))
  | c :: r =>
    if c.isAlpha then startStep? s
    else if c = '/' then .ok (closeStep? r)
    else if c = '?' then .ok ((Text.after? '>' r).map (Step.inert ('<' :: s)))
    else if c = '!' then (afterDeclaration? r).map (·.map (Step.inert ('<' :: s)))
    else .ok (some (.inert ('<' :: s) s))

/-- Whether `c` is plain character data outside of raw text. -/
def isPlain (c : Char) : Bool := c ≠ '<' && c ≠ '&'

/-- The step at the front of `s`, outside of raw text. -/
def plainStep (last : Bool) (s : Text) : Except ScanError Step :=
  match s with
  | [] => .ok (.stop [] [])
  | c :: r =>
    if c = '<' then
      (markupStep? r).map fun
        | some step => step
        | none => if last then unfinishedStep r else .stop [] s
    else if c = '&' then .ok (ampersandStep last r)
    else .ok (.inert s (r.dropWhile isPlain))

/-- Whether the end tag of `raw` stands at the front of `s`, letter case set aside. -/
def startsRawEnd (raw : RawElement) : Text → Bool
  | '<' :: '/' :: r =>
    match Text.stripWord? raw.name (r.dropWhile Text.isBlank) with
    | some rest => (blanksThenClose? rest).isSome
    | none => false
  | _ => false

/-- The first place in `s` where the end tag of `raw` stands. -/
def rawEnd? (raw : RawElement) (s : Text) : Option Text :=
  Text.search (fun t => if startsRawEnd raw t then some t else none) s

/-- The step at the front of `s`, in the body of a raw text element. Only an end tag in ASCII
letters ends the body. -/
def rawStep (raw : RawElement) (s : Text) : Step :=
  match rawEnd? raw s with
  | none => .stop [] s
  | some found =>
    if found.length < s.length then .inert s found
    else
      match (s.drop 2).dropWhile (· ≠ '>') with
      | [] => .stop [] s
      | _ :: rest =>
        if plainCloseName? (s.drop 2) = some raw.name then
          .token (.close raw.name (Text.upTo s rest)) rest
        else .inert s rest

def step (last : Bool) (raw : Option RawElement) (s : Text) : Except ScanError Step :=
  match raw with
  | none => plainStep last s
  | some raw => .ok (rawStep raw s)

end PageSplice.Html

-- SUMMARY: Regions of a document: inline scripts, inline styles and resource references.
import PageSplice.Html.Document
import PageSplice.Mime.Type
import PageSplice.Misfit

/-!
# Regions

A region is a part of a document that a build treats on its own: the body of an
inline script or style, or a reference to a resource. Regions are numbered in
document order, all kinds together, because a region's number is part of the
path it is compiled under.

What counts as a region is configured, and a misfit in the configuration shows
where it is first used: the name of resource elements at once, the least length
with the first body that is measured, and a type only where a region is
compiled by it.
-/

namespace PageSplice

/-- The two kinds of inline code. -/
inductive Language
  | script
  | style
  deriving DecidableEq, Repr

def Language.tag : Language → Text
  | script => "script".toList
  | style => "style".toList

def Language.ofTag? (tag : Text) : Option Language :=
  if tag = Language.script.tag then some .script
  else if tag = Language.style.tag then some .style
  else none

/-- An inline script or style. -/
structure CodeRegion where
  language : Language
  /-- The index of the element among the elements of the document. -/
  element : Nat
  ordinal : Nat
  /-- The type that the element declares. -/
  declaredType : Option Text
  /-- The type of code that declares none. -/
  defaultType : Option (Configured Text)
  /-- The body of the element. -/
  content : Text
  deriving DecidableEq, Repr

structure ResourceRegion where
  /-- The index of the element among the elements of the document. -/
  element : Nat
  ordinal : Nat
  /-- What the element refers to. -/
  reference : Option Text
  deriving DecidableEq, Repr

inductive Region
  | code (region : CodeRegion)
  | resource (region : ResourceRegion)
  deriving DecidableEq, Repr

/-- The type by which a region is compiled; `none` for code that stays as it is. -/
def CodeRegion.mimeType (r : CodeRegion) : Option (Configured Text) :=
  (r.declaredType.map .fit).or r.defaultType

/-- The type by which a region is compiled, as a text; empty where there is none. -/
def CodeRegion.typeText (r : CodeRegion) : Except Misuse Text :=
  match r.mimeType with
  | none => .ok []
  | some (.fit type) => .ok type
  | some (.misfit misfit) => if misfit.isEmpty then .ok [] else .error (.text misfit "split".toList)

/-- What counts as a region. -/
structure RegionRules where
  /-- The name of the elements that refer to resources. -/
  resourceTag : Configured Text := .fit "x-require".toList
  /-- The type of scripts that declare none. -/
  scriptType : Option (Configured Text) := some (.fit "text/javascript".toList)
  /-- The type of styles that declare none. -/
  styleType : Option (Configured Text) := none
  /-- The least length of a body that is a region. -/
  minLength : Configured Int := .fit 2
  deriving DecidableEq, Repr

/-- Whether `length` is below the least length of a region; a misfit is above no length. -/
def RegionRules.isBelow (rules : RegionRules) (length : Nat) : Bool :=
  match rules.minLength with
  | .fit minLength => (length : Int) < minLength
  | .misfit _ => false

namespace Region

def dataTypes : List Text := ["importmap", "speculationrules"].map String.toList

/-- The type that a script or style declares. A module is a script. -/
def declaredType (language : Language) (e : Html.Element) : Option Text :=
  let type := Mime.normalize ((e.value? "type".toList).getD [])
  if type.isEmpty then none
  else if language = .script ∧ type = "module".toList then some "text/javascript".toList
  else some type

def defaultType (rules : RegionRules) : Language → Option (Configured Text)
  | .script => rules.scriptType
  | .style => rules.styleType

/-- The code region that a script or style of `d` is, with its index and its number among the
regions. A script from elsewhere, a short or blank body, and a script that holds data are no
regions. -/
def codeRegion? (rules : RegionRules) (d : Html.Document) (language : Language) (e : Html.Element)
    (index ordinal : Nat) : Except Misuse (Option CodeRegion) :=
  let content := d.body e
  let declared := declaredType language e
  if language = .script ∧ e.hasAttribute "src".toList then .ok none
  else
    match rules.minLength with
    | .misfit misfit => .error (.bound misfit)
    | .fit _ =>
      if rules.isBelow content.length ∨ Text.blank content then .ok none
      else if (declared.map dataTypes.contains).getD false then .ok none
      else .ok (some ⟨language, index, ordinal, declared, defaultType rules language, content⟩)

/-- The region that an element of `d` is, where resource elements are called `resourceTag`. -/
def ofElement? (rules : RegionRules) (resourceTag : Text) (d : Html.Document) (e : Html.Element)
    (index ordinal : Nat) : Except Misuse (Option Region) :=
  if e.tag = resourceTag then .ok (some (.resource ⟨index, ordinal, e.value? "src".toList⟩))
  else
    match Language.ofTag? e.tag with
    | none => .ok none
    | some language => return (← codeRegion? rules d language e index ordinal).map .code

/-- The regions among the elements of `d` from index `index` on, the first with number
`ordinal`. -/
def ofElements (rules : RegionRules) (resourceTag : Text) (d : Html.Document)
    (index ordinal : Nat) : List Html.Element → Except Misuse (List Region)
  | [] => .ok []
  | e :: rest =>
    match ofElement? rules resourceTag d e index ordinal with
    | .error misuse => .error misuse
    | .ok (some region) =>
      (region :: ·) <$> ofElements rules resourceTag d (index + 1) (ordinal + 1) rest
    | .ok none => ofElements rules resourceTag d (index + 1) ordinal rest

def ofDocument (rules : RegionRules) (d : Html.Document) : Except Misuse (List Region) :=
  match rules.resourceTag with
  | .misfit misfit => .error (.text misfit "lower".toList)
  | .fit tag => ofElements rules (Text.lower tag) d 0 0 d.elements

-- ---------------------------------------------------------------------------
-- The code of a region is shorter than its document
-- ---------------------------------------------------------------------------

theorem length_content_of_codeRegion? {rules : RegionRules} {d : Html.Document}
    {language : Language} {e : Html.Element} {index ordinal : Nat} {r : CodeRegion}
    (h : codeRegion? rules d language e index ordinal = .ok (some r)) :
    r.content.length < d.markup.length := by
  unfold codeRegion? at h
  simp only at h
  split at h
  · simp at h
  · split at h
    · simp at h
    · split at h
      · simp at h
      · rename_i hlong
        split at h
        · simp at h
        · simp only [Except.ok.injEq, Option.some.injEq] at h
          subst h
          refine Html.Document.length_body_lt fun hnil => hlong (Or.inr ?_)
          simp [hnil, Text.blank]

theorem length_content_of_ofElement? {rules : RegionRules} {resourceTag : Text}
    {d : Html.Document} {e : Html.Element} {index ordinal : Nat} {r : CodeRegion}
    (h : ofElement? rules resourceTag d e index ordinal = .ok (some (.code r))) :
    r.content.length < d.markup.length := by
  unfold ofElement? at h
  split at h
  · simp at h
  · split at h
    · simp at h
    · rename_i language _
      cases hr : codeRegion? rules d language e index ordinal with
      | error misuse => rw [hr] at h; cases h
      | ok region =>
        rw [hr] at h
        cases region with
        | none => cases h
        | some region => cases h; exact length_content_of_codeRegion? hr

theorem length_content_lt {rules : RegionRules} {d : Html.Document} {regions : List Region}
    {r : CodeRegion} (h : ofDocument rules d = .ok regions) (hr : Region.code r ∈ regions) :
    r.content.length < d.markup.length := by
  have general : ∀ (tag : Text) (elements : List Html.Element) (index ordinal : Nat)
      (regions : List Region), ofElements rules tag d index ordinal elements = .ok regions →
      Region.code r ∈ regions → r.content.length < d.markup.length := by
    intro tag elements
    induction elements with
    | nil =>
      intro index ordinal regions h hr
      cases h
      cases hr
    | cons e rest ih =>
      intro index ordinal regions h hr
      unfold ofElements at h
      split at h
      · cases h
      · rename_i region hregion
        cases hrest : ofElements rules tag d (index + 1) (ordinal + 1) rest with
        | error misuse => rw [hrest] at h; cases h
        | ok others =>
          rw [hrest] at h
          cases h
          rcases List.mem_cons.1 hr with hr | hr
          · exact length_content_of_ofElement? (hr ▸ hregion)
          · exact ih _ _ _ hrest hr
      · exact ih _ _ _ h hr
  unfold ofDocument at h
  split at h
  · cases h
  · exact general _ _ 0 0 _ h hr

end Region

end PageSplice

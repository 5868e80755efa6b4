-- SUMMARY: References of a page: resources, which become absolute, links, which become secure, and local files.
import PageSplice.Path
import PageSplice.Region
import PageSplice.Session
import PageSplice.Url.Percent

/-!
# References

A page refers to resources, to other pages' files and to addresses. A resource
reference must not leave the directory of the page; a relative one becomes
an absolute path in that directory. Addresses without a scheme are given the
scheme `https`. What remains as a reference to a file on this machine is what a
build of the page depends on.
-/

namespace PageSplice.Page

/-- Whether `s` begins with a drive letter, as absolute Windows paths do. -/
def startsWithDrive : Text → Bool
  | c :: ':' :: d :: _ => c.isAlpha && (d = '\\' || d = '/')
  | _ => false

-- ---------------------------------------------------------------------------
-- Resources
-- ---------------------------------------------------------------------------

/-- The segments of a reference, between slashes of either kind. -/
def referenceSegments (reference : Text) : List Text :=
  Text.splitBy (fun c => c = '\\' || c = '/') reference

def hasDotSegment (reference : Text) : Bool :=
  (referenceSegments reference).any fun segment => segment = ['.'] || segment = ['.', '.']

/-- Whether a reference is an absolute path or a URL. -/
def isAbsolute (reference : Text) : Except Url.Error Bool :=
  if reference.head? = some '/' ∨ reference.head? = some '\\' ∨ startsWithDrive reference then
    .ok true
  else do
    let parts ← Url.split reference
    return !parts.scheme.isEmpty

/-- What takes the place of a reference in the document at `path`, whose directory is `directory`;
`none` for a reference that stays as it is. -/
def canonical? (directory : Path) (path reference : Text) : Except Failure (Option Text) :=
  if reference.isEmpty then .ok none
  else if hasDotSegment reference then .error (.traversal reference path)
  else
    match isAbsolute reference with
    | .error e => .error (.url e)
    | .ok true => .ok none
    | .ok false => .ok (some (directory.join (Path.ofText reference)).toText)

/-- Makes the reference of a resource region absolute. -/
def canonicalize (directory : Path) (path : Text) (d : Html.Document) (r : ResourceRegion) :
    Except Failure Html.Document :=
  return match ← canonical? directory path (r.reference.getD []) with
    | some reference => d.setAttribute r.element "src".toList reference
    | none => d

-- ---------------------------------------------------------------------------
-- Secure links
-- ---------------------------------------------------------------------------

/-- The elements with addresses that are made secure, and the attributes that hold them. -/
def securedAttributes : List (Text × Text) :=
  [("link".toList, "href".toList), ("script".toList, "src".toList)]

def lacksScheme (reference : Text) : Bool :=
  reference.length > 2 && "//".toList.isPrefixOf reference

/-- Gives the address in the attribute `name` of an element the scheme `https`. -/
def secureElement (name : Text) (d : Html.Document) (index : Nat) : Html.Document :=
  match d.elements[index]?.bind (·.value? name) with
  | some reference =>
    if lacksScheme reference then d.setAttribute index name ("https:".toList ++ reference) else d
  | none => d

def secureLinks (d : Html.Document) : Html.Document :=
  securedAttributes.foldl
    (fun d (tag, name) => (d.query tag).foldl (secureElement name) d) d

-- ---------------------------------------------------------------------------
-- Local files
-- ---------------------------------------------------------------------------

/-- The relations of a link that make its target a dependency. -/
def dependencyRelations : List Text := ["stylesheet", "import"].map String.toList

/-- The reference by which an element depends on another file: the source of a script, or the
target of a link to a style sheet or an import. -/
def dependencyReference? (e : Html.Element) : Option Text :=
  if e.tag = "script".toList then e.value? "src".toList
  else if e.tag = "link".toList &&
      (Text.words (Text.lower ((e.value? "rel".toList).getD []))).any
        dependencyRelations.contains then
    e.value? "href".toList
  else none

/-- The path of the file that a reference means for a document in `directory`; `none` for a
reference to something that is no file here. -/
def localFile? (directory : Path) (reference : Text) : Except Failure (Option Text) :=
  let reference := Text.trim reference
  if "//".toList.isPrefixOf reference then .ok none
  else
    match Url.split reference with
    | .error e => .error (.url e)
    | .ok parts =>
      if parts.scheme = "file".toList then .ok (some (Url.percentDecode parts.path))
      else if parts.scheme ≠ [] ∧ !startsWithDrive reference then .ok none
      else
        let file := Text.before '?' (Text.before '#' reference)
        if file.isEmpty then .ok none
        else
          match (directory.join (Path.ofText file)).resolve? with
          | some resolved => .ok (some resolved.toText)
          | none => .error .nulInPath

/-- Puts the file that an element depends on behind the files found before, once. -/
def addDependency (directory : Path) (found : List Text) (e : Html.Element) :
    Except Failure (List Text) := do
  match dependencyReference? e with
  | none | some [] => return found
  | some reference =>
    match ← localFile? directory reference with
    | some file => return if found.contains file then found else found ++ [file]
    | none => return found

/-- The files that a document in `directory` depends on, in order of their first reference. -/
def dependenciesOf (directory : Path) (d : Html.Document) : Except Failure (List Text) :=
  d.elements.foldlM (addDependency directory) []

end PageSplice.Page

-- SUMMARY: Registries: from mime types to compiler classes, by class or by dotted path.
import PageSplice.Delegate

/-!
# Registries

A registry gives a type its compiler class. An entry may be a dotted path, whose
class is imported when it is first needed and then takes the place of the path.
What a path leads to is for the importer to say. A look-up that fails leaves the
registry as it is.
-/

namespace PageSplice

/-- What a dotted path can name. -/
inductive CompilerClass (σ : Type)
  /-- The compiler of HTML documents, or a class derived from it. -/
  | html (name : Text)
  | delegate (d : Delegate σ)
  /-- A class that cannot be instantiated, with what there is to say against it. -/
  | abstract (name objection : Text)
  /-- A class whose instances are no compilers. -/
  | foreign (name : Text)
  /-- A module, which is no class. -/
  | module (name : Text)

def CompilerClass.name {σ : Type} : CompilerClass σ → Text
  | .html name => name
  | .delegate d => d.name
  | .abstract name _ => name
  | .foreign name => name
  | .module name => name

/-- The class that each dotted path leads to, or why it leads to none. -/
abbrev Importer (σ : Type) := Text → Except LookupError (CompilerClass σ)

inductive Entry (σ : Type)
  /-- The type is listed without a compiler. -/
  | vacant
  | path (path : Text)
  | compiler (compiler : CompilerClass σ)

-- ---------------------------------------------------------------------------
-- Tables
-- ---------------------------------------------------------------------------

/-- Entries by type; no type occurs twice. -/
abbrev EntryTable (σ : Type) := List (Text × Entry σ)

namespace EntryTable

variable {σ : Type}

/-- Puts an entry in, in place of one for the same type, or behind all others. -/
def insert (type : Text) (entry : Entry σ) : EntryTable σ → EntryTable σ
  | [] => [(type, entry)]
  | (t, e) :: rest =>
    if t = type then (t, entry) :: rest else (t, e) :: insert type entry rest

/-- The table of a list of entries, of which later ones replace earlier ones. -/
def ofList (entries : List (Text × Entry σ)) : EntryTable σ :=
  entries.foldl (fun table entry => insert entry.1 entry.2 table) []

/-- The table with every type in its normal form. -/
def normalize (table : EntryTable σ) : EntryTable σ :=
  table.foldl (fun normal entry => insert (Mime.normalize entry.1) entry.2 normal) []

end EntryTable

-- ---------------------------------------------------------------------------
-- Registries
-- ---------------------------------------------------------------------------

/-- A registry: a table whose types are in normal form. -/
structure Registry (σ : Type) where
  table : EntryTable σ

namespace Registry

variable {σ : Type}

def ofList (entries : List (Text × Entry σ)) : Registry σ :=
  ⟨(EntryTable.ofList entries).normalize⟩

/-- The types, in order of code points. -/
def types (r : Registry σ) : List Text :=
  (r.table.map (·.1)).mergeSort fun a b => !Text.precedes b a

def contains (r : Registry σ) (type : Text) : Bool :=
  (r.table.lookup (Mime.normalize type)).isSome

/-- The class for a type; `none` where there is none. -/
def find? (load : Importer σ) (r : Registry σ) (type : Text) :
    Except LookupError (Option (CompilerClass σ)) :=
  match r.table.lookup (Mime.normalize type) with
  | none | some .vacant => .ok none
  | some (.compiler compiler) => .ok (some compiler)
  | some (.path path) => some <$> load path

/-- Looks up the class for a type, and keeps the class that a path leads to. -/
def get (load : Importer σ) (type : Text) (r : Registry σ) :
    Except LookupError (Option (CompilerClass σ)) × Registry σ :=
  let found := r.find? load type
  let kept := match found with
    | .ok (some compiler) => ⟨r.table.insert (Mime.normalize type) (.compiler compiler)⟩
    | _ => r
  (found, kept)

/-- Looks up the class for a type, which must be there. -/
def resolve (load : Importer σ) (type : Text) (r : Registry σ) :
    Except Failure (CompilerClass σ) × Registry σ :=
  let (found, kept) := r.get load type
  let answer := match found with
    | .ok (some compiler) => .ok compiler
    | .ok none => .error (.unsupported type)
    | .error e => .error (.lookup e)
  (answer, kept)

end Registry

-- ---------------------------------------------------------------------------
-- Look-ups
-- ---------------------------------------------------------------------------

/-- How a page compiler finds the class for a type. -/
inductive Lookup (σ : Type)
  | registry (load : Importer σ) (registry : Registry σ)
  /-- A table that is searched for the type as it is. What it holds must be a class. -/
  | exact (table : EntryTable σ)

def Lookup.find? {σ : Type} : Lookup σ → Text → Except Failure (Option (CompilerClass σ))
  | registry load r, type => (r.find? load type).mapError .lookup
  | exact table, type =>
    match table.lookup type with
    | none | some .vacant => .ok none
    | some (.compiler compiler) => .ok (some compiler)
    | some (.path _) => .error .notClass

end PageSplice

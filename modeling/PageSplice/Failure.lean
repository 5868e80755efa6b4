-- SUMMARY: Everything that can fail in a build, with its wording.
import PageSplice.Charset.Basic
import PageSplice.FileError
import PageSplice.Html.Document
import PageSplice.Json.Printer
import PageSplice.Misfit
import PageSplice.Url.Split

/-!
# Failures

A build fails for a cause, and a failure is that cause. Failures of a delegate
are wrapped, so that the outermost one names the region that was being
compiled; a cancellation is no failure of a delegate and is never wrapped.
-/

namespace PageSplice

/-- Why a registered class cannot be found. -/
inductive LookupError
  /-- The path has no dot. -/
  | undotted
  /-- Nothing stands in front of the last dot. -/
  | emptyModule
  /-- The module begins with a dot. -/
  | relativeModule (name : Text)
  /-- There is no such module; `parent` is named where it is a module without modules inside. -/
  | missingModule (name : Text) (parent : Option Text)
  /-- The module has no such class. -/
  | missingClass (module name : Text)
  deriving DecidableEq, Repr

/-- What a delegate may raise that is no report of its own. -/
inductive Complaint
  | badValue
  | badSyntax
  | other
  deriving DecidableEq, Repr

/-- The cause of a failed build. -/
inductive Failure
  /-- The markup is no document. -/
  | malformed (problem : Html.Malformation)
  /-- A resource reference of the document at `document` has a dot segment. -/
  | traversal (reference document : Text)
  /-- No compiler is registered for a type. -/
  | unsupported (type : Text)
  /-- A delegate reports an error of its own. -/
  | reported (text : Text) (identity : Option Text)
  /-- A delegate has failed on the region `identity`. -/
  | delegate (identity : Text) (cause : Failure)
  /-- A delegate raises something else. -/
  | raised (complaint : Complaint) (text : Text)
  /-- A delegate cancels the build. -/
  | cancelled (text : Text)
  /-- A region's body cannot be replaced. -/
  | body (error : Html.Document.BodyError)
  /-- The source map of a region cannot be printed. -/
  | unprintable (error : Json.PrintError)
  /-- A reference is a broken URL. -/
  | url (error : Url.Error)
  /-- A reference holds a NUL character. -/
  | nulInPath
  /-- A registered class is not there. -/
  | lookup (error : LookupError)
  /-- What is registered is no class. -/
  | notClass
  /-- A registered class cannot be instantiated. -/
  | notInstantiable (objection : Text)
  /-- A registered class is no compiler. -/
  | missingMethod (className method : Text)
  /-- A setting of the wrong kind is used. -/
  | misuse (misuse : Misuse)
  /-- A body or a file cannot be decoded. -/
  | undecodable (error : Charset.DecodeError)
  /-- A body cannot be encoded. -/
  | unencodable (error : Charset.EncodeError)
  /-- A body names a charset that is not known. -/
  | unknownCharset (name : Text)
  /-- A file operation fails. -/
  | file (error : FileError)
  deriving Repr

namespace LookupError

/-- The wording of a lookup error. -/
def message : LookupError → Text
  | undotted => "not enough values to unpack (expected 2, got 1)".toList
  | emptyModule => "Empty module name".toList
  | missingModule name parent =>
    "No module named ".toList ++ Text.quoted name ++
      match parent with
      | some parent => "; ".toList ++ Text.quoted parent ++ " is not a package".toList
      | none => []
  | relativeModule name =>
    "the 'package' argument is required to perform a relative import for ".toList ++
      Text.quoted name
  | missingClass module name =>
    "module '".toList ++ module ++ "' has no attribute '".toList ++ name ++ "'".toList

end LookupError

namespace Failure

/-- The wording of a failure. -/
def message : Failure → Text
  | malformed problem => problem.message
  | traversal reference _ =>
    "Resource path ".toList ++ Text.quoted reference ++ " contains '.' or '..' segments".toList
  | unsupported type => "No compiler registered for ".toList ++ type
  | reported text _ => text
  | delegate identity cause =>
    "Failed to compile ".toList ++ identity ++ ": ".toList ++ cause.message
  | raised _ text => text
  | cancelled text => text
  | body error => error.message
  | unprintable error => error.message
  | url error => error.message
  | nulInPath => "embedded null byte".toList
  | lookup error => error.message
  | notClass => "issubclass() arg 1 must be a class".toList
  | notInstantiable objection => objection
  | missingMethod className method =>
    "'".toList ++ className ++ "' object has no attribute '".toList ++ method ++ "'".toList
  | misuse error => error.message
  | undecodable error => error.message
  | unencodable error => error.message
  | unknownCharset name => "unknown encoding: ".toList ++ name
  | file error => error.message

def identity? : Failure → Option Text
  | traversal _ document => some document
  | reported _ identity => identity
  | delegate identity _ => some identity
  | _ => none

def hint? : Failure → Option Text
  | traversal _ _ =>
    some "Reference resources relative to the document without ./ or ../".toList
  | _ => none

/-- Whether the failure is a report on the document that is compiled, rather than a fault of the
configuration or a broken reference. -/
def isReport : Failure → Bool
  | malformed _ | traversal _ _ | unsupported _ | reported _ _ | delegate _ _ => true
  | _ => false

/-- The failure of a region whose delegate fails for `cause`. -/
def wrap (identity : Text) : Failure → Failure
  | cancelled text => cancelled text
  | cause => delegate identity cause

end Failure

end PageSplice

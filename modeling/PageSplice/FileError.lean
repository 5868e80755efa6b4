-- SUMMARY: What can go wrong when a file is read or written.
import PageSplice.Text.Quoted

/-!
# File errors

A file operation fails for one of the reasons for which a POSIX system refuses
it. The wording carries the number of the error.
-/

namespace PageSplice

inductive FileError.Reason
  | missing
  | present
  | notDirectory
  | isDirectory
  | tooLong
  deriving DecidableEq, Repr

structure FileError where
  reason : FileError.Reason
  path : Text
  deriving DecidableEq, Repr

namespace FileError

/-- The number of the error on a POSIX system. -/
def Reason.number : Reason → Nat
  | missing => 2
  | present => 17
  | notDirectory => 20
  | isDirectory => 21
  | tooLong => 36

def Reason.message : Reason → Text
  | missing => "No such file or directory".toList
  | present => "File exists".toList
  | notDirectory => "Not a directory".toList
  | isDirectory => "Is a directory".toList
  | tooLong => "File name too long".toList

def message (e : FileError) : Text :=
  "[Errno ".toList ++ Text.ofNat e.reason.number ++ "] ".toList ++ e.reason.message ++
    ": ".toList ++ Text.quoted e.path

end FileError

end PageSplice

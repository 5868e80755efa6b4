-- SUMMARY: Misfits: values of the wrong kind that a site has set, and what fails when one is used.
import PageSplice.Text.Basic

/-!
# Misfits

A site may set a value of any kind where a text or a number belongs. Such a
misfit does no harm until it is used: it is the use that fails, for a reason
that names the kind of the value. Where a value may be missing, an empty misfit
counts as an empty text.
-/

namespace PageSplice

structure Misfit where
  /-- The name of its kind. -/
  kind : Text
  /-- Whether it is null, zero, false or without items. -/
  isEmpty : Bool
  deriving DecidableEq, Repr

/-- What a site sets: a value that fits, or a misfit in its place. -/
inductive Configured (α : Type)
  | fit (value : α)
  | misfit (misfit : Misfit)
  deriving DecidableEq, Repr

/-- A use of a misfit. -/
inductive Misuse
  /-- It is treated as a text, whose operation `name` it does not have. -/
  | text (misfit : Misfit) (name : Text)
  /-- A length is compared with it. -/
  | bound (misfit : Misfit)
  /-- It is taken for a path. -/
  | path (misfit : Misfit)
  /-- It is taken for a span of time. -/
  | span (misfit : Misfit)
  deriving DecidableEq, Repr

namespace Misuse

/-- The wording of a misuse. -/
def message : Misuse → Text
  | text misfit name =>
    "'".toList ++ misfit.kind ++ "' object has no attribute '".toList ++ name ++ "'".toList
  | bound misfit =>
    "'<' not supported between instances of 'int' and '".toList ++ misfit.kind ++ "'".toList
  | path misfit => "expected str, bytes or os.PathLike object, not ".toList ++ misfit.kind
  | span misfit =>
    "unsupported operand type(s) for +: 'float' and '".toList ++ misfit.kind ++ "'".toList

end Misuse

end PageSplice

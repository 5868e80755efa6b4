-- SUMMARY: Delegates: the compilers that regions are handed to, and the one that changes nothing.
import PageSplice.Mime.Type
import PageSplice.Session
import PageSplice.SourceMap.Line

/-!
# Delegates

A delegate says whether it takes a region and compiles the code of the regions
it takes. It sees nothing of the document around them: only the code, the
identity of the region and the caching context.
-/

namespace PageSplice

structure Output where
  code : Text
  mimeType : Text
  sourceMap : Option SourceMap := none

/-- A compiler of regions. -/
structure Delegate (σ : Type) where
  name : Text
  /-- The types that it takes. -/
  types : List Text := []
  /-- The type of what it makes. -/
  outputType : Text := "text/plain".toList
  /-- Whether it takes the region of that identity. -/
  accepts : Text → Build σ Bool := fun _ => pure true
  /-- The files that the code, from the region of that identity, depends on. -/
  dependencies : Text → Text → Build σ (List Text) := fun _ _ => pure []
  /-- Compiles the code of the region of that identity. -/
  compile : Text → Text → Build σ Output

namespace Delegate

/-- The delegate for code that is used as it is written. -/
def passthrough (σ : Type) : Delegate σ where
  name := "PassthroughCompiler".toList
  types := ["text/javascript", "application/javascript", "text/css"].map String.toList
  compile code identity := pure
    { code, mimeType := (Mime.ofPath? identity).getD "text/plain".toList }

end Delegate

end PageSplice

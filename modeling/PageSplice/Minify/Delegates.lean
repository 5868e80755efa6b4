-- SUMMARY: The delegates that minify scripts and style sheets, around minifiers that are given.
import PageSplice.Delegate

/-!
# Minifying delegates

A minifying delegate takes every region of its types, hands the code to a
minifier and notes in the log how much shorter it has become. The minifiers
themselves come from elsewhere.
-/

namespace PageSplice

/-- What makes code shorter. -/
structure Minifiers where
  script : Text → Text
  style : Text → Text

namespace Delegate

variable {σ : Type}

/-- Minifies code and notes the lengths before and after. -/
def minifyWith (minify : Text → Text) (type : Text) (code identity : Text) : Build σ Output := do
  let minified := minify code
  Build.log .debug .minifier <|
    "Minified ".toList ++ identity ++ ": ".toList ++ Text.ofNat code.length ++ " -> ".toList ++
      Text.ofNat minified.length ++ " chars".toList
  return { code := minified, mimeType := type }

def scriptMinifier (minifiers : Minifiers) (σ : Type) : Delegate σ where
  name := "JavaScriptMinifier".toList
  types := ["text/javascript", "application/javascript"].map String.toList
  outputType := "text/javascript".toList
  compile := minifyWith minifiers.script "text/javascript".toList

def styleMinifier (minifiers : Minifiers) (σ : Type) : Delegate σ where
  name := "CssMinifier".toList
  types := ["text/css".toList]
  outputType := "text/css".toList
  compile := minifyWith minifiers.style "text/css".toList

end Delegate

end PageSplice

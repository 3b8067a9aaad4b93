import Delog.Path

/-!
# Dialect — the grammars a source can be read by

The dialect of a file goes by its extension, in upper or lower case.
-/

namespace Delog

/-- **The grammar a source is read by.** -/
inductive Dialect where
  /-- Plain JavaScript, including JSX. -/
  | javaScript
  | typeScript
  /-- TypeScript with JSX. -/
  | tsx
deriving DecidableEq, Repr

namespace Dialect

/-- The dialect sources are read by unless another is named. -/
def default : Dialect := typeScript

/-- The name of a dialect. -/
def name : Dialect → String
  | javaScript => "JavaScript"
  | typeScript => "TypeScript"
  | tsx => "Tsx"

/-- **The dialect of an extension**, without its dot and in any case. -/
def ofExtension (ext : Text) : Option Dialect :=
  let lower := String.ofList (ext.map Char.toLower)
  if lower ∈ ["js", "jsx", "mjs", "cjs"] then some javaScript
  else if lower ∈ ["ts", "mts", "cts"] then some typeScript
  else if lower = "tsx" then some tsx
  else none

/-- **The dialect of a file**, by the extension of its name. -/
def ofPath (p : Path) : Option Dialect := do
  let name ← p.fileName
  let ext ← Path.extension name
  ofExtension (← Text.decode ext)

end Dialect

end Delog

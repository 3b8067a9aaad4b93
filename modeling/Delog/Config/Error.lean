import Delog.Directory.Resolve
import Delog.Options
import Delog.Toml.Value

/-!
# Config/Error — why a configuration is not accepted
-/

namespace Delog

/-- **Why a document does not give settings.** -/
inductive SchemaError where
  | unknownField (key : Text)
  /-- The name of the logging object is given twice. -/
  | duplicateField
  /-- The name of the logging object is not a string. -/
  | notString (value : Toml.Value)

namespace SchemaError

/-- What kind of value stands where a string is expected. -/
def describe : Toml.Value → String
  | .string _ => "string"
  | .integer n => s!"integer `{n}`"
  | .float x => s!"floating point `{x.text}`"
  | .boolean b => s!"boolean `{b}`"
  | .array _ => "sequence"
  | .tables _ => "sequence"
  | .moment _ => "map"
  | .table .. => "map"

/-- The wording of an error in the entries of a document. -/
def message : SchemaError → String
  | unknownField key =>
    s!"unknown field `{String.ofList key}`, expected `loggingObjectName` or `logging_object_name`"
  | duplicateField => "duplicate field `logging_object_name`"
  | notString value => s!"invalid type: {describe value}, expected a string"

end SchemaError

/-- **Why a file gives no text.** -/
inductive TextError where
  | path (error : PathError)
  | notUtf8
deriving DecidableEq, Repr

/-- The wording of an error in reading a text. -/
def TextError.message : TextError → String
  | path error => error.message
  | notUtf8 => "stream did not contain valid UTF-8"

/-- **Why a configuration is not accepted.** -/
inductive ConfigError where
  | io (path : Path) (error : TextError)
  /-- The text is not a document. -/
  | malformed
  /-- The document has other entries than settings. -/
  | schema (error : SchemaError)
  /-- The settings make no sense. -/
  | invalid (error : OptionsError)
  /-- The error is in the text of this file. -/
  | inFile (path : Path) (cause : ConfigError)

namespace ConfigError

/-- Whether the error is about the text of a document and not about settings. -/
def isAboutText : ConfigError → Bool
  | malformed => true
  | schema _ => true
  | _ => false

/-- **The wording of an error in a configuration.** -/
def message : ConfigError → String
  | io path error => s!"failed to read removal options from {path.display}: {error.message}"
  | malformed => "failed to parse removal options TOML"
  | schema error => s!"failed to parse removal options TOML: {error.message}"
  | invalid error => s!"invalid removal options: {error.message}"
  | inFile path cause => s!"{path.display}: {cause.message}"

end ConfigError

end Delog

import Delog.Text.Blank
import Delog.Text.Letter

/-!
# Options — the settings of a run, and which of them make sense

There is one setting: the name of the object whose method calls are logging statements.  It has to
be a plain identifier.
-/

namespace Delog

open Text

/-- **The settings of a run.** -/
structure Options where
  /-- The name of the logging object. -/
  loggingObject : String
deriving DecidableEq, Repr

/-- **Why settings make no sense.** -/
inductive OptionsError where
  /-- The name is empty or blank. -/
  | emptyObject
  /-- The name is not a plain identifier. -/
  | notAnIdentifier (name : String)
deriving DecidableEq, Repr

namespace OptionsError

/-- The wording of an error in the settings. -/
def message : OptionsError → String
  | emptyObject => "logging_object_name must not be empty"
  | notAnIdentifier name => s!"logging_object_name '{name}' is not a plain identifier"

end OptionsError

namespace Options

/-- Unless told otherwise, the logging object is `console`. -/
def default : Options := ⟨"console"⟩

/-- Whether an identifier may start with a character. -/
def startsIdentifier (c : Char) : Bool := c == '_' || c == '$' || isAlphabetic c

/-- Whether an identifier may go on with a character. -/
def continuesIdentifier (c : Char) : Bool := startsIdentifier c || isNumeric c

/-- **Whether a name is a plain identifier**: letters of any script, `_`, `$`, and after the first
character also digits. -/
def isIdentifier : Text → Bool
  | [] => false
  | c :: s => startsIdentifier c && s.all continuesIdentifier

/-- **What is wrong with the settings.** -/
def check (o : Options) : Option OptionsError :=
  let name := o.loggingObject.toList
  if (trim name).isEmpty then some .emptyObject
  else if isIdentifier name then none
  else some (.notAnIdentifier o.loggingObject)

end Options

end Delog

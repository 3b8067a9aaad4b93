import Delog.Config.Error
import Delog.Directory.Access
import Delog.Toml.Document

/-!
# Config/Load — settings from a configuration document

A document may give the name of the logging object, under either of two keys, and nothing else.  Its
entries are taken in order, and the first that does not fit is the one reported.  Only then is the
name itself looked at.  What the entries of a document are is up to the reader of documents.
-/

namespace Delog.Config

/-- The keys for the name of the logging object. -/
def objectKeys : List String := ["logging_object_name", "loggingObjectName"]

/-- **The name of the logging object** after the entries of a document, given the name so far. -/
def objectName (found : Option Text) : Toml.Entries → Except SchemaError (Option Text)
  | [] => .ok found
  | (key, value) :: entries =>
    if !objectKeys.contains (String.ofList key) then .error (.unknownField key)
    else if found.isSome then .error .duplicateField
    else
      match value with
      | .string name => objectName (some name) entries
      | value => .error (.notString value)

/-- **The settings that the entries of a document give**; what they leave open stays at the
default. -/
def ofEntries (entries : Toml.Entries) : Except ConfigError Options :=
  match objectName none entries with
  | .error e => .error (.schema e)
  | .ok name =>
    let options := (name.map fun name => ⟨String.ofList name⟩).getD Options.default
    match options.check with
    | some e => .error (.invalid e)
    | none => .ok options

/-- **A reader of documents** tells the entries of a document, in order. -/
abbrev Reader := Text → Option Toml.Entries

/-- **The settings a document gives**, by its entries. -/
def ofTextBy (read : Reader) (s : Text) : Except ConfigError Options :=
  match read s with
  | none => .error .malformed
  | some entries => ofEntries entries

/-- The settings a document gives. -/
def ofText (s : Text) : Except ConfigError Options := ofTextBy Toml.read s

/-- The text of a file. -/
def readText (d : Directory) (p : Path) : Except TextError Text :=
  match d.read p with
  | .error e => .error (.path e)
  | .ok f =>
    match Text.decode f.content with
    | none => .error .notUtf8
    | some s => .ok s

/-- **The settings a file gives**, by the entries of the document in it. -/
def ofFileBy (read : Reader) (d : Directory) (p : Path) : Except ConfigError Options :=
  match readText d p with
  | .error e => .error (.io p e)
  | .ok s => (ofTextBy read s).mapError (.inFile p)

/-- The settings a file gives. -/
def ofFile (d : Directory) (p : Path) : Except ConfigError Options := ofFileBy Toml.read d p

end Delog.Config

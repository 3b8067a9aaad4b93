import Delog.Directory.Disk
import Delog.Event
import Delog.File.Error
import Delog.Strip.Stripper

/-!
# File/Process — removing the logging statements of a file

A file is read, stripped, and replaced as a whole if it has logging statements.  Just before it is
replaced it is read again, and if it is not what was stripped any more it is left as it is.  A disk
may fail to replace it.
-/

namespace Delog

/-- **Whether a run writes what it comes to.** -/
inductive WriteMode where
  | write
  /-- The run only tells what writing would come to. -/
  | check
deriving DecidableEq, Repr

/-- **What processing a file comes to.** -/
inductive FileOutcome where
  | modified (path : Path) (statements bytesBefore bytesAfter : Nat)
  | unchanged (path : Path)
deriving DecidableEq, Repr

namespace FileOutcome

/-- The path of the file, as it was given. -/
def path : FileOutcome → Path
  | modified path .. => path
  | unchanged path => path

/-- Whether the file has logging statements to remove. -/
def isModified : FileOutcome → Bool
  | modified .. => true
  | unchanged _ => false

/-- **By how many bytes the file shrinks.** -/
def bytesRemoved : FileOutcome → Nat
  | modified _ _ before after => before - after
  | unchanged _ => 0

end FileOutcome

/-- **What somebody else does to a file** after it was read and stripped, and before it is read
again. -/
inductive Interference where
  | nothing
  | overwrite (content : Bytes)
  | removal
deriving DecidableEq, Repr

namespace Interference

/-- The directory after the interference. -/
def act (d : Directory) (p : Path) : Interference → Directory
  | nothing => d
  | overwrite content => d.write p content none
  | removal => d.remove p

end Interference

/-- **A file that was processed**: what it came to, the directory after it, and what was
reported. -/
structure Processed where
  result : Except FileError FileOutcome
  directory : Directory
  events : List Event

/-- **The fingerprint of a content**, by which a file is known again without its content being kept.
Contents with one fingerprint are taken for the same. -/
abbrev Fingerprint (κ : Type) := Bytes → κ

variable {κ : Type} [DecidableEq κ]

/-- Replaces a file, provided that its content still has the expected fingerprint. -/
def replaceIfSame (disk : Disk) (fingerprint : Fingerprint κ) (p : Path) (expected : κ)
    (content : Bytes) : EStateM FileError Directory Unit := fun d =>
  match d.read p with
  | .error e => .error (.io p e) d
  | .ok current =>
    if fingerprint current.content = expected then
      match disk.replace p content d with
      | .error e d => .error (.io p e) d
      | .ok () d => .ok () d
    else .error (.changed p) d

/-- **Removes the logging statements of a file** on a disk, unless the run only checks.  The file is
known again by a fingerprint. -/
def processFileBy (disk : Disk) (fingerprint : Fingerprint κ) (s : Stripper) (mode : WriteMode)
    (p : Path) (trees : Trees) (meanwhile : Interference) (d : Directory) : Processed :=
  match Dialect.ofPath p with
  | none => ⟨.error (.unsupported p), d, []⟩
  | some _ =>
    match d.read p with
    | .error e => ⟨.error (.io p e), d, []⟩
    | .ok file =>
      match Text.decode file.content with
      | none => ⟨.error (.notUtf8 p), d, []⟩
      | some source =>
        match s.strip source p.sourceName trees with
        | .error e => ⟨.error (.removal e), d, []⟩
        | .ok .unchanged => ⟨.ok (.unchanged p), d, [.nothingFound p.sourceName]⟩
        | .ok (.modified text statements) =>
          let before := file.content.length
          let after := text.size
          let outcome := FileOutcome.modified p statements before after
          let removed := Event.removed p.sourceName statements (before - after)
          let d := meanwhile.act d p
          match mode with
          | .check => ⟨.ok outcome, d, [removed]⟩
          | .write =>
            match replaceIfSame disk fingerprint p (fingerprint file.content)
              (Text.encode text) d with
            | .error e d => ⟨.error e, d, [removed]⟩
            | .ok () d => ⟨.ok outcome, d, [removed, .replaced p statements (before - after)]⟩

/-- **Removes the logging statements of a file** on a disk with no failures of its own, unless the
run only checks.  The file is known again by its content itself. -/
def processFile (s : Stripper) (mode : WriteMode) (p : Path) (trees : Trees)
    (meanwhile : Interference) (d : Directory) : Processed :=
  processFileBy .plain (id : Fingerprint Bytes) s mode p trees meanwhile d

/-- **Removes the logging statements of a file**, with nobody else at work. -/
def stripFile (s : Stripper) (p : Path) (trees : Trees) (d : Directory) : Processed :=
  processFile s .write p trees .nothing d

/-- **Tells what `stripFile` would come to**, writing nothing. -/
def checkFile (s : Stripper) (p : Path) (trees : Trees) (d : Directory) : Processed :=
  processFile s .check p trees .nothing d

end Delog

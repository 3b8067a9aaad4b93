import Delog.Path

/-!
# Event — what a run reports while it works
-/

namespace Delog

/-- How much an event matters. -/
inductive Level where
  | debug
  | info
  | warn
deriving DecidableEq, Repr

/-- The name of a level. -/
def Level.name : Level → String
  | debug => "DEBUG"
  | info => "INFO"
  | warn => "WARN"

/-- **An event of a run.** -/
inductive Event where
  /-- A source holds no logging statements. -/
  | nothingFound (source : String)
  /-- Statements were removed from a source, and the result is sound. -/
  | removed (source : String) (statements bytes : Nat)
  /-- A file was written. -/
  | replaced (path : Path) (statements bytes : Nat)
  /-- A file of a batch could not be processed. -/
  | failed (path : Path) (error : String)
deriving DecidableEq, Repr

namespace Event

/-- How much the event matters. -/
def level : Event → Level
  | nothingFound _ => .debug
  | removed .. => .debug
  | replaced .. => .info
  | failed .. => .warn

/-- The wording of an event. -/
def message : Event → String
  | nothingFound _ => "no logging statements found"
  | removed .. => "removed logging statements"
  | replaced .. => "rewrote file without logging statements"
  | failed .. => "failed to remove logging statements"

end Event

end Delog

import Delog.Directory.Resolve
import Delog.Strip.Error

/-!
# File/Error — why a file is not processed
-/

namespace Delog

/-- **Why a file is not processed.** -/
inductive FileError where
  | io (path : Path) (error : PathError)
  | notUtf8 (path : Path)
  /-- No dialect goes with the name of the file. -/
  | unsupported (path : Path)
  /-- The file is not any more what it was when it was read. -/
  | changed (path : Path)
  | removal (error : RemovalError)
deriving DecidableEq, Repr

namespace FileError

/-- The wording of an error in processing a file. -/
def message : FileError → String
  | io path error => s!"I/O error on {path.display}: {error.message}"
  | notUtf8 path => s!"{path.display} is not valid UTF-8"
  | unsupported path =>
    s!"unsupported file type for console removal: {path.display} (expected .js, .jsx, .mjs, .cjs, " ++
      ".ts, .mts, .cts or .tsx)"
  | changed path => s!"{path.display} changed while it was being processed"
  | removal error => error.message

end FileError

end Delog

import Delog.File.Process

/-!
# File/Batch — processing many files

Each file of a batch is processed on its own, and one that fails does not keep the others from being
processed.  The files may be processed in any order; the report lists them in the order they were
given.
-/

namespace Delog

/-- **A file to process**, with the trees a parser gives for it. -/
structure Job where
  path : Path
  trees : Trees

/-- What became of one file of a batch. -/
structure BatchEntry where
  path : Path
  result : Except FileError FileOutcome

/-- **What a batch comes to**, file by file in the order given. -/
structure BatchReport where
  entries : List BatchEntry

namespace BatchReport

/-- The outcomes of the files that could be processed. -/
def outcomes (r : BatchReport) : List FileOutcome := r.entries.filterMap (·.result.toOption)

/-- The outcomes of the files with logging statements. -/
def modified (r : BatchReport) : List FileOutcome := r.outcomes.filter (·.isModified)

/-- The outcomes of the files without logging statements. -/
def unchanged (r : BatchReport) : List FileOutcome := r.outcomes.filter (!·.isModified)

/-- The files that could not be processed. -/
def failures (r : BatchReport) : List (Path × FileError) :=
  r.entries.filterMap fun e =>
    match e.result with
    | .error error => some (e.path, error)
    | .ok _ => none

/-- Whether some file could not be processed. -/
def hasFailures (r : BatchReport) : Bool := !r.failures.isEmpty

/-- **By how many bytes the files shrink** altogether. -/
def bytesRemoved (r : BatchReport) : Nat := r.modified.foldr (·.bytesRemoved + ·) 0

end BatchReport

/-- A batch in progress: the numbered entries so far, the directory and the events. -/
structure BatchProgress where
  entries : List (Nat × BatchEntry)
  directory : Directory
  events : List Event

namespace Batch

/-- The event that tells of a failure. -/
def failureEvents (p : Path) : Except FileError FileOutcome → List Event
  | .error e => [.failed p e.message]
  | .ok _ => []

/-- Processes one numbered file. -/
def step (disk : Disk) (s : Stripper) (mode : WriteMode) (b : BatchProgress) (job : Nat × Job) :
    BatchProgress :=
  let run := processFileBy disk (id : Fingerprint Bytes) s mode job.2.path job.2.trees .nothing
    b.directory
  { entries := b.entries ++ [(job.1, ⟨job.2.path, run.result⟩)]
    directory := run.directory
    events := b.events ++ run.events ++ failureEvents job.2.path run.result }

/-- **Processes numbered files on a disk**, one after the other. -/
def runOn (disk : Disk) (s : Stripper) (mode : WriteMode) (schedule : List (Nat × Job))
    (d : Directory) : BatchProgress :=
  schedule.foldl (step disk s mode) ⟨[], d, []⟩

/-- Processes numbered files on a disk with no failures of its own. -/
def run (s : Stripper) (mode : WriteMode) (schedule : List (Nat × Job)) (d : Directory) :
    BatchProgress :=
  runOn .plain s mode schedule d

/-- The jobs of a batch, numbered in the order given. -/
def numbered (jobs : List Job) : List (Nat × Job) := jobs.zipIdx.map fun x => (x.2, x.1)

end Batch

namespace BatchProgress

/-- **The report of a batch**, its entries put back into the order of their numbers. -/
def report (b : BatchProgress) : BatchReport :=
  ⟨(b.entries.mergeSort fun x y => decide (x.1 ≤ y.1)).map (·.2)⟩

end BatchProgress

end Delog

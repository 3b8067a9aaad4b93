import Delog.Directory.Access

/-!
# Directory/Disk — replacing a file as a whole

What is to be in a file is written into a temporary one beside it, which then takes its place.  What
a disk does in each of these steps is up to the disk, and so is where it fails; a temporary file
that does not come into its place is discarded.

* `replace` — the steps, one after the other
* `plain` — a disk that fails only where paths make it fail, such as one that leaves no room for the
  name of the temporary file
-/

namespace Delog

/-- **Something that is done in a directory**, and may fail.  It leaves a directory in either
case. -/
abbrev Action (α : Type) := EStateM PathError Directory α

/-- **A disk**, by what it does for a file that is to be replaced. -/
structure Disk where
  /-- Tells the permissions of the file that a path leads to. -/
  permissions (p : Path) : Action Nat
  /-- Makes an empty file in the directory that a path leads to. -/
  create (folder : Path) : Action Location
  /-- Writes into an empty file. -/
  write (loc : Location) (content : Bytes) : Action Unit
  /-- Waits until what was written is there to stay. -/
  sync (loc : Location) : Action Unit
  /-- Gives a file other permissions. -/
  setMode (loc : Location) (mode : Nat) : Action Unit
  /-- Moves a file to the place of what a path names. -/
  rename (loc : Location) (p : Path) : Action Unit
  /-- Takes out a file that nobody needs. -/
  discard (loc : Location) (d : Directory) : Directory

namespace Disk

/-- Completes a temporary file, and moves it to its place. -/
def complete (disk : Disk) (temp : Location) (content : Bytes) (mode : Nat) (p : Path) :
    Action Unit := do
  disk.write temp content
  disk.sync temp
  disk.setMode temp mode
  disk.rename temp p

/-- Discards a temporary file if what is done with it fails. -/
def orDiscard (disk : Disk) (temp : Location) (action : Action Unit) : Action Unit :=
  try action
  catch e =>
    modify (disk.discard temp)
    throw e

/-- **Replaces what a path names by a new file.**  It has the permissions of the file that the path
leads to. -/
def replace (disk : Disk) (p : Path) (content : Bytes) : Action Unit := do
  let mode ← disk.permissions p
  let temp ← disk.create p.folder
  disk.orDiscard temp (disk.complete temp content mode p)

/-! ## A disk with no failures of its own -/

/-- The permission bits of a temporary file. -/
def tempMode : Nat := 0o600

/-- The names of temporary files, one longer than the other. -/
def tempName (k : Nat) : Name := Text.encode ".tmp".toList ++ List.replicate (k + 6) 0x78

/-- Whether there is room in a path for the name of a temporary file in a folder. -/
def hasRoom (folder : Path) : Bool :=
  (Path.ofParts [folder, tempName 0]).length < Directory.pathLimit

/-- The first location for a temporary file at which there is nothing yet. -/
def freeLocation (d : Directory) (dir : Location) : Location :=
  let locations := (List.range (d.entries.length + 1)).map fun k => dir ++ [tempName k]
  (locations.find? fun loc => (d.find? loc).isNone).getD []

/-- Changes the file at a location. -/
def change (loc : Location) (f : RegularFile → RegularFile) : Action Unit := fun d =>
  match d.find? loc with
  | some (.file old) => .ok () (d.put loc (.file (f old)))
  | _ => .error .notFound d

/-- **A disk with no failures of its own**: it fails only where paths make it fail. -/
def plain : Disk where
  permissions p d :=
    match d.read p with
    | .ok f => .ok f.mode d
    | .error e => .error e d
  create folder d :=
    if !hasRoom folder then .error .nameTooLong d
    else
      match d.locate true folder with
      | .ok (.existing dir) =>
        if d.find? dir = some .directory then
          .ok (freeLocation d dir) (d.put (freeLocation d dir) (.file ⟨[], tempMode, true⟩))
        else .error .notDirectory d
      | .ok (.vacant ..) => .error .notFound d
      | .error e => .error e d
  write loc content := change loc fun f => ⟨f.content ++ content, f.mode, true⟩
  sync _ := pure ()
  setMode loc mode := change loc fun f => { f with mode }
  rename loc p d :=
    match d.rename loc p with
    | .ok d' => .ok () d'
    | .error e => .error e d
  discard loc d := d.unlink loc

end Disk

end Delog

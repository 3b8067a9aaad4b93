import Delog.Directory.Resolve

/-!
# Directory/Access — reading and writing by path

Reading and writing follow links; replacing a file and removing an entry do not, so that they
concern the link itself.
-/

namespace Delog.Directory

/-- The permission bits of a file made without naming any. -/
def defaultMode : Nat := 0o644

/-- **Reads a file.** -/
def read (d : Directory) (p : Path) : Except PathError RegularFile :=
  match d.locate true p with
  | .error e => .error e
  | .ok (.vacant ..) => .error .notFound
  | .ok (.existing loc) =>
    match d.find? loc with
    | some (.file f) => .ok f
    | some .directory => .error .isDirectory
    | _ => .error .notFound

/-- **Puts a file in the place of what a path names**, be it a file or a link. -/
def replace (d : Directory) (p : Path) (f : RegularFile) : Except PathError Directory :=
  match d.locate false p with
  | .error e => .error e
  | .ok (.vacant parent name) => .ok (d.put (parent ++ [name]) (.file f))
  | .ok (.existing loc) =>
    match d.find? loc with
    | some .directory => .error .isDirectory
    | _ => .ok (d.put loc (.file f))

/-- **Moves the file at a location** to the place of what a path names. -/
def rename (d : Directory) (loc : Location) (p : Path) : Except PathError Directory :=
  match d.find? loc with
  | some (.file f) => (d.unlink loc).replace p f
  | _ => .error .notFound

/-- **Writes a file in place**, making it if there is none.  A file that is there keeps its
permissions unless new ones are given.  Where there can be no file, nothing happens. -/
def write (d : Directory) (p : Path) (content : Bytes) (mode : Option Nat) : Directory :=
  match d.locate true p with
  | .ok (.vacant parent name) =>
    d.put (parent ++ [name]) (.file ⟨content, mode.getD defaultMode, true⟩)
  | .ok (.existing loc) =>
    match d.find? loc with
    | some (.file f) => d.put loc (.file ⟨content, mode.getD f.mode, true⟩)
    | _ => d
  | .error _ => d

/-- Makes an entry where there is none; otherwise nothing happens. -/
def make (d : Directory) (p : Path) (e : Entry) : Directory :=
  match d.locate false p with
  | .ok (.vacant parent name) => d.put (parent ++ [name]) e
  | _ => d

/-- **Removes what a path names**, with all below it.  Where there is nothing, nothing happens. -/
def remove (d : Directory) (p : Path) : Directory :=
  match d.locate false p with
  | .ok (.existing loc) => d.delete loc
  | _ => d

/-- **All entries with their paths**, in the order of the bytes of the paths. -/
def listing (d : Directory) : List (Path × Entry) :=
  (d.entries.map fun x => (Path.ofParts x.1, x.2)).mergeSort fun a b => decide (a.1 ≤ b.1)

end Delog.Directory

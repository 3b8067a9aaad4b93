import Delog.Text.Utf8

/-!
# Path — names of files

A path is a list of bytes, as given; nothing makes it UTF-8.  A slash separates the steps.  The file
name is the last step, whereby empty steps and `.` do not count, and `..` is no file name; the
folder of a path is what stands before that step.
-/

namespace Delog

/-- The name of an entry of a directory. -/
abbrev Name := Bytes

/-- **A path**, byte by byte. -/
abbrev Path := Bytes

namespace Path

/-- The byte `/`. -/
def slash : UInt8 := 0x2F

/-- The byte `.`. -/
def dot : UInt8 := 0x2E

/-- The parts of a path between its slashes; there is one more of them than slashes. -/
def parts : Path → List Name
  | [] => [[]]
  | b :: bs =>
    if b = slash then [] :: parts bs
    else
      match parts bs with
      | [] => [[b]]
      | n :: ns => (b :: n) :: ns

/-- **The file name of a path**, if it ends in one. -/
def fileName (p : Path) : Option Name :=
  match ((parts p).filter fun n => n ≠ [] ∧ n ≠ [dot]).getLast? with
  | some n => if n = [dot, dot] then none else some n
  | none => none

/-- **The extension of a file name**: what follows its last dot, unless the name starts there. -/
def extension (n : Name) : Option Bytes :=
  let stem := (n.reverse.dropWhile (· ≠ dot)).reverse
  if stem.length ≤ 1 then none else some (n.drop stem.length)

/-- The path of the given parts. -/
def ofParts (ns : List Name) : Path := [slash].intercalate ns

/-- Whether a part of a path leads no further. -/
def isHere (n : Name) : Bool := n = [] ∨ n = [dot]

/-- **The path of the directory in which a path names an entry.**  It is the path without its last
part that leads further, and without the parts before it that do not; for a path of one such part it
is `.`. -/
def folder (p : Path) : Path :=
  match parts p with
  | [] => [dot]
  | first :: rest =>
    match rest.reverse.dropWhile isHere with
    | [] => [dot]
    | _ :: before =>
      match ofParts (first :: (before.dropWhile isHere).reverse) with
      | [] => [slash]
      | q => q

/-- The path as it is shown to people. -/
def display (p : Path) : String := String.ofList (Text.decodeLossy p)

/-- **The name by which diagnostics speak of a file**: its file name, or the whole path if it has
none. -/
def sourceName (p : Path) : String := display ((fileName p).getD p)

end Path

end Delog

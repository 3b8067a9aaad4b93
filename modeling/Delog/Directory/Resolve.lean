import Delog.Directory.Basic

/-!
# Directory/Resolve — finding the entry a path names

A path is followed step by step from the working directory.  A symbolic link on the way is replaced
by the path it stands for, at most forty times.  A slash at the end of a path counts as one more
step, to where the path already is.  Nothing is known of what lies above the working directory, so
nothing is found there.
-/

namespace Delog

/-- **Why a path leads to no file**, or a file cannot be written there. -/
inductive PathError where
  | notFound
  | notDirectory
  | isDirectory
  | nameTooLong
  | tooManyLinks
  /-- No name has a byte 0 in it. -/
  | nulByte
  /-- Anything else that a disk says. -/
  | refused (message : String)
deriving DecidableEq, Repr

namespace PathError

/-- The wording of an error in following a path, with the number it has if it has one. -/
def message : PathError → String
  | notFound => "No such file or directory (os error 2)"
  | notDirectory => "Not a directory (os error 20)"
  | isDirectory => "Is a directory (os error 21)"
  | nameTooLong => "File name too long (os error 36)"
  | tooManyLinks => "Too many levels of symbolic links (os error 40)"
  | nulByte => "file name contained an unexpected NUL byte"
  | refused message => message

end PathError

/-- **A step of a path.** -/
inductive Step where
  /-- Stays in the directory. -/
  | here
  /-- Goes to the directory above. -/
  | up
  /-- Goes to the topmost directory. -/
  | top
  /-- Goes to the entry of a name. -/
  | into (name : Name)
deriving DecidableEq, Repr

namespace Step

/-- The step a part of a path stands for. -/
def ofPart (n : Name) : Step :=
  if n = [] ∨ n = [Path.dot] then here
  else if n = [Path.dot, Path.dot] then up
  else into n

/-- Whether the step names an entry. -/
def isNamed : Step → Bool
  | into _ => true
  | _ => false

end Step

/-- **The steps of a path.** -/
def Path.steps (p : Path) : List Step :=
  match parts p with
  | [] :: n :: ns => .top :: (n :: ns).map Step.ofPart
  | ns => ns.map Step.ofPart

/-- **Where a path leads.** -/
inductive Place where
  /-- To the entry at a location. -/
  | existing (loc : Location)
  /-- To a name in a directory that has no entry of that name. -/
  | vacant (parent : Location) (name : Name)
deriving DecidableEq, Repr

namespace Directory

/-- How far the steps of a path lead before a link has to be followed. -/
inductive Advance where
  | done (place : Place)
  | failed (error : PathError)
  /-- A link was met in the directory `base`, with steps to go after it. -/
  | followLink (base : Location) (target : Path) (rest : List Step)

/-- The length that a name must not exceed. -/
def nameLimit : Nat := 255

/-- The length that a path must stay below. -/
def pathLimit : Nat := 4096

/-- How many links are followed in finding one entry. -/
def linkLimit : Nat := 40

/-- What steps lead to that start above the working directory. -/
def outside (rest : List Step) : Advance :=
  if rest.any Step.isNamed then .failed .notFound else .done (.existing [])

/-- **Goes from a directory as far as no link has to be followed.**  A link at the very end is
followed only if `follow` says so. -/
def advance (d : Directory) (follow : Bool) (loc : Location) : List Step → Advance
  | [] => .done (.existing loc)
  | .here :: rest => advance d follow loc rest
  | .up :: rest => if loc = [] then outside rest else advance d follow loc.dropLast rest
  | .top :: rest => outside rest
  | .into n :: rest =>
    if nameLimit < n.length then .failed .nameTooLong
    else
      match d.find? (loc ++ [n]) with
      | none => if rest = [] then .done (.vacant loc n) else .failed .notFound
      | some .directory => advance d follow (loc ++ [n]) rest
      | some (.file _) =>
        if rest = [] then .done (.existing (loc ++ [n])) else .failed .notDirectory
      | some (.link target) =>
        if rest = [] ∧ follow = false then .done (.existing (loc ++ [n]))
        else .followLink loc target rest

/-- Goes from a directory along steps, following at most the given number of links. -/
def walk (d : Directory) (follow : Bool) : Nat → Location → List Step → Except PathError Place
  | links, loc, steps =>
    match advance d follow loc steps with
    | .done place => .ok place
    | .failed e => .error e
    | .followLink base target rest =>
      match links with
      | 0 => .error .tooManyLinks
      | links + 1 => walk d follow links base (target.steps ++ rest)

/-- **Where a path leads**, with or without following a link at its end. -/
def locate (d : Directory) (follow : Bool) (p : Path) : Except PathError Place :=
  if p.contains 0 then .error .nulByte
  else if p = [] then .error .notFound
  else if pathLimit ≤ p.length then .error .nameTooLong
  else walk d follow linkLimit [] p.steps

end Directory

end Delog

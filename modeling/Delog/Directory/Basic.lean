import Delog.Path

/-!
# Directory/Basic — a working directory and what is in it

An entry is a file, a symbolic link or a directory; it is known by its location, the names on the
way to it.  The working directory itself is at the empty location.

* `find?_put` — putting an entry changes that entry and no other
-/

namespace Delog

/-- **A regular file.** -/
structure RegularFile where
  content : Bytes
  /-- The permission bits. -/
  mode : Nat
  /-- Whether the file was written since the directory was last settled. -/
  written : Bool
deriving DecidableEq, Repr

/-- **An entry of a directory.** -/
inductive Entry where
  | file (f : RegularFile)
  /-- A symbolic link, with the path it stands for. -/
  | link (target : Path)
  | directory
deriving DecidableEq, Repr

/-- The names on the way from the working directory to an entry. -/
abbrev Location := List Name

/-- **A working directory**: what is in it, and in the directories below it. -/
structure Directory where
  entries : List (Location × Entry)
deriving DecidableEq, Repr

namespace Directory

/-- The empty directory. -/
def empty : Directory := ⟨[]⟩

/-- **The entry at a location.** -/
def find? (d : Directory) (loc : Location) : Option Entry :=
  if loc = [] then some .directory else d.entries.lookup loc

/-- Puts an entry into a list of entries, in place of the one at its location if there is one. -/
def putInto (loc : Location) (e : Entry) : List (Location × Entry) → List (Location × Entry)
  | [] => [(loc, e)]
  | x :: xs => if x.1 = loc then (loc, e) :: xs else x :: putInto loc e xs

/-- **Puts an entry** at a location below the working directory. -/
def put (d : Directory) (loc : Location) (e : Entry) : Directory := ⟨putInto loc e d.entries⟩

/-- Takes out the entry at a location and all below it. -/
def delete (d : Directory) (loc : Location) : Directory :=
  ⟨d.entries.filter fun x => !loc.isPrefixOf x.1⟩

/-- Takes out the entry at a location, and no other. -/
def unlink (d : Directory) (loc : Location) : Directory := ⟨d.entries.filter fun x => x.1 ≠ loc⟩

/-- An entry that counts as not written. -/
def settled : Entry → Entry
  | .file f => .file { f with written := false }
  | e => e

/-- Forgets which files were written. -/
def settle (d : Directory) : Directory := ⟨d.entries.map fun x => (x.1, settled x.2)⟩

/-! ## Putting entries -/

theorem lookup_putInto (loc l : Location) (e : Entry) : ∀ xs : List (Location × Entry),
    (putInto loc e xs).lookup l = if l = loc then some e else xs.lookup l
  | [] => by
    rw [putInto]
    by_cases h : l = loc
    · simp [h]
    · simp [h, List.lookup_cons, beq_false_of_ne h]
  | (k, x) :: xs => by
    rw [putInto]
    by_cases hk : k = loc
    · subst hk
      by_cases h : l = k
      · simp [h]
      · simp [h, List.lookup_cons, beq_false_of_ne h]
    · by_cases h : l = k
      · subst h
        simp [hk]
      · simp [hk, List.lookup_cons, beq_false_of_ne h, lookup_putInto loc l e xs]

/-- **Putting an entry changes that entry and no other.** -/
theorem find?_put (d : Directory) {loc : Location} (h : loc ≠ []) (e : Entry) (l : Location) :
    (d.put loc e).find? l = if l = loc then some e else d.find? l := by
  rw [find?, find?, put, lookup_putInto]
  by_cases hl : l = []
  · simp [hl, Ne.symm h]
  · simp [hl]

end Directory

end Delog

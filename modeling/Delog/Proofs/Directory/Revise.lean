import Delog.Proofs.Directory.Names
import Mathlib.Data.List.Pairwise

/-!
# Proofs/Directory/Revise — new versions of several files

A new version takes the place of a file, where there is one.  The directory keeps its shape, so that
all paths lead where they led; versions of different files are independent of one another, and it
does not matter which one comes first.

* `reviseAll_perm` — the order of the versions does not matter
* `find?_reviseAll_of_mem`, `find?_reviseAll_of_notMem` — the files are the new versions, and no
  other entry changes
* `read_reviseAll` — what is read by a path to none of the files
-/

namespace Delog.Directory

variable {d : Directory} {loc l : Location} {f old : RegularFile}

/-- **Puts a new version of a file in its place**, where there is one. -/
def revise (d : Directory) (loc : Location) (new : RegularFile) : Directory :=
  match d.find? loc with
  | some (.file _) => d.put loc (.file new)
  | _ => d

theorem revise_of_file (h : d.find? loc = some (.file old)) (new : RegularFile) :
    d.revise loc new = d.put loc (.file new) := by
  rw [revise, h]

theorem revise_of_ne (h : ∀ f, d.find? loc ≠ some (.file f)) (new : RegularFile) :
    d.revise loc new = d := by
  rw [revise]
  split
  · exact absurd ‹_› (h _)
  · rfl

theorem sameShape_revise (d : Directory) (loc : Location) (new : RegularFile) :
    SameShape d (d.revise loc new) := by
  by_cases h : ∃ f, d.find? loc = some (.file f)
  · obtain ⟨f, hf⟩ := h
    rw [revise_of_file hf]
    exact sameShape_put hf new
  · rw [revise_of_ne fun f hf => h ⟨f, hf⟩]
    exact .refl d

theorem find?_revise_self (h : d.find? loc = some (.file old)) (new : RegularFile) :
    (d.revise loc new).find? loc = some (.file new) := by
  rw [revise_of_file h, find?_put d (ne_nil_of_file h), if_pos rfl]

theorem find?_revise_of_ne (h : l ≠ loc) (new : RegularFile) :
    (d.revise loc new).find? l = d.find? l := by
  by_cases hfile : ∃ f, d.find? loc = some (.file f)
  · obtain ⟨f, hf⟩ := hfile
    rw [revise_of_file hf, find?_put d (ne_nil_of_file hf), if_neg h]
  · rw [revise_of_ne fun f hf => hfile ⟨f, hf⟩]

/-- **Versions of two files may be put in either order.** -/
theorem revise_comm {l₁ l₂ : Location} (hne : l₁ ≠ l₂) (f₁ f₂ : RegularFile) :
    (d.revise l₁ f₁).revise l₂ f₂ = (d.revise l₂ f₂).revise l₁ f₁ := by
  have h₁ : (d.revise l₂ f₂).find? l₁ = d.find? l₁ := find?_revise_of_ne hne f₂
  have h₂ : (d.revise l₁ f₁).find? l₂ = d.find? l₂ := find?_revise_of_ne hne.symm f₁
  by_cases hfile₁ : ∃ f, d.find? l₁ = some (.file f)
  · obtain ⟨g₁, hg₁⟩ := hfile₁
    by_cases hfile₂ : ∃ f, d.find? l₂ = some (.file f)
    · obtain ⟨g₂, hg₂⟩ := hfile₂
      rw [revise_of_file (h₂.trans hg₂), revise_of_file (h₁.trans hg₁), revise_of_file hg₁,
        revise_of_file hg₂]
      exact put_comm hne (ne_nil_of_file hg₁) (by simp [hg₁])
    · have hnot : ∀ f, d.find? l₂ ≠ some (.file f) := fun f hf => hfile₂ ⟨f, hf⟩
      have hnot' : ∀ f, (d.revise l₁ f₁).find? l₂ ≠ some (.file f) := by rwa [h₂]
      rw [revise_of_ne hnot, revise_of_ne hnot']
  · have hnot : ∀ f, d.find? l₁ ≠ some (.file f) := fun f hf => hfile₁ ⟨f, hf⟩
    have hnot' : ∀ f, (d.revise l₂ f₂).find? l₁ ≠ some (.file f) := by rwa [h₁]
    rw [revise_of_ne hnot, revise_of_ne hnot']

/-! ## Several files -/

/-- Puts new versions of files in their places, one after the other. -/
def reviseAll (d : Directory) (versions : List (Location × RegularFile)) : Directory :=
  versions.foldl (fun d v => d.revise v.1 v.2) d

variable {versions versions' : List (Location × RegularFile)}

theorem reviseAll_cons (d : Directory) (v : Location × RegularFile)
    (versions : List (Location × RegularFile)) :
    d.reviseAll (v :: versions) = (d.revise v.1 v.2).reviseAll versions := rfl

theorem reviseAll_append (d : Directory) (versions versions' : List (Location × RegularFile)) :
    d.reviseAll (versions ++ versions') = (d.reviseAll versions).reviseAll versions' :=
  List.foldl_append

theorem sameShape_reviseAll (d : Directory) (versions : List (Location × RegularFile)) :
    SameShape d (d.reviseAll versions) := by
  induction versions generalizing d with
  | nil => exact .refl d
  | cons v versions ih => exact (sameShape_revise d v.1 v.2).trans (ih _)

/-- **The order of the versions does not matter**, if they are of different files. -/
theorem reviseAll_perm (hdistinct : versions.Pairwise fun v w => v.1 ≠ w.1)
    (hperm : versions.Perm versions') (d : Directory) :
    d.reviseAll versions = d.reviseAll versions' := by
  have : Std.Symm fun v w : Location × RegularFile => v.1 ≠ w.1 := ⟨fun _ _ => Ne.symm⟩
  refine hperm.foldl_eq' (fun v hv w hw d => ?_) d
  by_cases hvw : v = w
  · rw [hvw]
  · exact revise_comm (hdistinct.forall hv hw hvw) _ _

theorem find?_reviseAll_of_notMem (h : ∀ v ∈ versions, v.1 ≠ l) :
    (d.reviseAll versions).find? l = d.find? l := by
  induction versions generalizing d with
  | nil => rfl
  | cons v versions ih =>
    rw [reviseAll_cons, ih fun w hw => h w (List.mem_cons_of_mem _ hw),
      find?_revise_of_ne (h v List.mem_cons_self).symm]

theorem find?_reviseAll_of_mem (hdistinct : versions.Pairwise fun v w => v.1 ≠ w.1)
    (hmem : (loc, f) ∈ versions) (hfile : d.find? loc = some (.file old)) :
    (d.reviseAll versions).find? loc = some (.file f) := by
  induction versions generalizing d with
  | nil => cases hmem
  | cons v versions ih =>
    obtain ⟨hfirst, hdistinct⟩ := List.pairwise_cons.mp hdistinct
    rw [reviseAll_cons]
    rcases List.mem_cons.mp hmem with rfl | hmem
    · rw [find?_reviseAll_of_notMem fun w hw => (hfirst w hw).symm, find?_revise_self hfile]
    · exact ih hdistinct hmem (by rw [find?_revise_of_ne (hfirst _ hmem).symm, hfile])

/-- **By a path to none of the files** the same is read as before. -/
theorem read_reviseAll {p : Path} (h : ∀ v ∈ versions, d.locate true p ≠ .ok (.existing v.1)) :
    (d.reviseAll versions).read p = d.read p := by
  rw [read, read, ← (sameShape_reviseAll d versions).locate_eq]
  cases hlocate : d.locate true p with
  | error e => rfl
  | ok place =>
    cases place with
    | vacant parent n => rfl
    | existing loc =>
      rw [hlocate] at h
      simp only [find?_reviseAll_of_notMem fun v hv heq => h v hv (heq ▸ rfl)]

end Delog.Directory

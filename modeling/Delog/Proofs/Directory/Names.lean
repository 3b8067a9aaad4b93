import Delog.Proofs.Directory.Entry
import Delog.Proofs.Directory.Walk

/-!
# Proofs/Directory/Names — the files that paths name

A path from which a file can be read names an entry: the file itself, or a link at the end of which
the file is.  Replacing and removing are about that entry, reading and writing about the file; each
of them changes one entry, and the path leads to what is there then.

* `exists_names` — a path from which a file can be read names an entry
* `Names.rewritten` — replacing a file by its path changes the named entry alone
* `Names.of_write`, `Names.of_remove` — what the path names after the file is overwritten or removed
-/

namespace Delog.Directory

variable {d d' : Directory} {p : Path} {loc target : Location} {file : RegularFile}

/-- **A path names a file**: the entry at `loc`, which is the file itself, at `target`, or else a
link that leads to it. -/
structure Names (d : Directory) (p : Path) (loc target : Location) (file : RegularFile) : Prop where
  locate_false : d.locate false p = .ok (.existing loc)
  locate_true : d.locate true p = .ok (.existing target)
  find?_target : d.find? target = some (.file file)

/-- **A path of the form of one.** -/
structure IsPath (p : Path) : Prop where
  zero_notMem : 0 ∉ p
  ne_nil : p ≠ []
  length_lt : p.length < pathLimit

/-- A path that leads to a place has the form of one. -/
theorem isPath_of_locate {follow : Bool} {place : Place} (h : d.locate follow p = .ok place) :
    IsPath p := by
  rw [locate] at h
  by_cases hnul : p.contains 0 = true
  · rw [if_pos hnul] at h
    cases h
  by_cases hnil : p = []
  · rw [if_neg hnul, if_pos hnil] at h
    cases h
  by_cases hlong : pathLimit ≤ p.length
  · rw [if_neg hnul, if_neg hnil, if_pos hlong] at h
    cases h
  · exact ⟨by simpa using hnul, hnil, Nat.not_le.mp hlong⟩

/-- A path of the form of one is walked along. -/
theorem IsPath.locate_eq (h : IsPath p) (d : Directory) (follow : Bool) :
    d.locate follow p = walk d follow linkLimit [] p.steps := by
  rw [locate, if_neg (by simpa using h.zero_notMem), if_neg h.ne_nil,
    if_neg (Nat.not_le.mpr h.length_lt)]

theorem locate_eq_walk {follow : Bool} {place : Place} (h : d.locate follow p = .ok place)
    (d' : Directory) (follow' : Bool) :
    d'.locate follow' p = walk d' follow' linkLimit [] p.steps :=
  (isPath_of_locate h).locate_eq d' follow'

/-- The beginning of a path is one. -/
theorem IsPath.of_isPrefix {q : Path} (h : IsPath p) (hpre : q <+: p) (hne : q ≠ []) : IsPath q :=
  ⟨fun hzero => h.zero_notMem (hpre.subset hzero), hne,
    Nat.lt_of_le_of_lt hpre.length_le h.length_lt⟩

theorem read_eq_ok_iff : d.read p = .ok file ↔
    ∃ target, d.locate true p = .ok (.existing target) ∧ d.find? target = some (.file file) := by
  constructor
  · intro h
    rw [read] at h
    split at h
    · cases h
    · cases h
    · split at h <;> cases h
      exact ⟨_, ‹_›, ‹_›⟩
  · rintro ⟨target, htrue, hfile⟩
    rw [read, htrue]
    simp only [hfile]

/-- **A path from which a file can be read names an entry.** -/
theorem exists_names (h : d.read p = .ok file) : ∃ loc target, d.Names p loc target file := by
  obtain ⟨target, htrue, hfile⟩ := read_eq_ok_iff.mp h
  have hwalk := locate_eq_walk htrue d
  obtain ⟨parent, n, hfalse, -⟩ :=
    (leads_iff.mpr ((hwalk true).symm.trans htrue)).exists_entry rfl hfile (passable_nil d)
  exact ⟨parent ++ [n], target, (hwalk false).trans (leads_iff.mp hfalse), htrue, hfile⟩

/-! ## Changes of one entry -/

theorem agreeOff_put (hloc : d.find? loc ≠ some .directory) (e : Entry) :
    AgreeOff d (d.put loc e) loc := by
  refine ⟨hloc, fun l hl => ?_⟩
  rw [find?_put d (ne_nil_of_find? hloc), if_neg]
  rintro rfl
  exact hl List.prefix_rfl

theorem agreeOff_delete (hloc : d.find? loc ≠ some .directory) : AgreeOff d (d.delete loc) loc :=
  ⟨hloc, fun l hl => by rw [find?_delete d (ne_nil_of_find? hloc), if_neg hl]⟩

/-- **A file in the place of a file** leaves the shape of a directory as it is. -/
theorem sameShape_put {old : RegularFile} (hloc : d.find? loc = some (.file old))
    (new : RegularFile) : SameShape d (d.put loc (.file new)) := by
  intro l
  rw [find?_put d (ne_nil_of_file hloc)]
  split
  · rename_i h
    rw [h, hloc]
    rfl
  · rfl

/-! ## Replacing, writing and removing a named file -/

/-- **The file at a path is rewritten, and nothing else is.** -/
structure Rewritten (d d' : Directory) (p : Path) (loc : Location) (old new : RegularFile) :
    Prop where
  /-- The path names the entry at `loc`; at the end of it, the old file was read. -/
  locate_old : d.locate false p = .ok (.existing loc)
  read_old : d.read p = .ok old
  /-- The entry is the new file, and the path leads to it. -/
  find?_new : d'.find? loc = some (.file new)
  locate_new : d'.locate false p = .ok (.existing loc)
  read_new : d'.read p = .ok new
  /-- All other entries are as they were. -/
  find?_of_ne : ∀ l, l ≠ loc → d'.find? l = d.find? l
  /-- If the entry was a link, the old file is still where the link led to. -/
  find?_target : ∀ t, d.find? loc = some (.link t) →
    ∃ target, target ≠ loc ∧ d.locate true p = .ok (.existing target) ∧
      d'.find? target = some (.file old)

namespace Names

variable (h : d.Names p loc target file)
include h

theorem read_eq : d.read p = .ok file := read_eq_ok_iff.mpr ⟨target, h.locate_true, h.find?_target⟩

/-- **The named entry is the file or a link**, and whatever takes its place, unless it is a link, is
at the end of the path. -/
theorem entry : (loc = target ∨ ∃ t, d.find? loc = some (.link t)) ∧
    ∃ parent n, loc = parent ++ [n] ∧ ∀ d', AgreeOff d d' loc →
      (∀ t, d'.find? loc ≠ some (.link t)) →
        ∀ follow, d'.locate follow p = .ok (d'.placeAt parent n) := by
  have hwalk := locate_eq_walk h.locate_true
  obtain ⟨parent, n, hfalse, hentry, hchange⟩ :=
    (leads_iff.mpr ((hwalk d true).symm.trans h.locate_true)).exists_entry rfl h.find?_target
      (passable_nil d)
  obtain rfl : loc = parent ++ [n] := by
    have heq := h.locate_false.symm.trans ((hwalk d false).trans (leads_iff.mp hfalse))
    injection heq with heq
    injection heq
  refine ⟨hentry.imp_right fun ⟨t, _, hlink, _⟩ => ⟨t, hlink⟩, parent, n, rfl, ?_⟩
  intro d' hagree hlink follow
  rw [hwalk, leads_iff.mp (hchange d' hagree hlink follow)]

theorem find?_loc : d.find? loc = some (.file file) ∨ ∃ t, d.find? loc = some (.link t) :=
  h.entry.1.imp_left fun (heq : loc = target) => by rw [heq, h.find?_target]

theorem find?_loc_ne_directory : d.find? loc ≠ some .directory := by
  rcases h.find?_loc with hfile | ⟨t, hlink⟩ <;> simp [*]

/-- In a directory of one shape, in which the same is read, the path names the file as well. -/
theorem of_sameShape (hshape : SameShape d d') (hread : d'.read p = d.read p) :
    d'.Names p loc target file := by
  have htrue : d'.locate true p = .ok (.existing target) := by
    rw [← hshape.locate_eq, h.locate_true]
  obtain ⟨target', htrue', hfile⟩ := read_eq_ok_iff.mp (hread.trans h.read_eq)
  cases htrue.symm.trans htrue'
  exact ⟨by rw [← hshape.locate_eq, h.locate_false], htrue, hfile⟩

/-- The path leads to a file that takes the place of the entry. -/
theorem locate_of_file {new : RegularFile} (hagree : AgreeOff d d' loc)
    (hnew : d'.find? loc = some (.file new)) (follow : Bool) :
    d'.locate follow p = .ok (.existing loc) := by
  obtain ⟨-, parent, n, rfl, hplace⟩ := h.entry
  rw [hplace d' hagree (by simp [hnew]), placeAt, hnew]

/-- The path leads nowhere once the entry is gone. -/
theorem locate_of_none (hagree : AgreeOff d d' loc) (hnone : d'.find? loc = none) :
    ∃ parent n, loc = parent ++ [n] ∧ ∀ follow, d'.locate follow p = .ok (.vacant parent n) := by
  obtain ⟨-, parent, n, rfl, hplace⟩ := h.entry
  refine ⟨parent, n, rfl, fun follow => ?_⟩
  rw [hplace d' hagree (by simp [hnone]), placeAt, hnone]

/-- **Replacing a file by its path** puts the new file in the place of the named entry. -/
theorem replace_eq (new : RegularFile) : d.replace p new = .ok (d.put loc (.file new)) := by
  rw [replace, h.locate_false]
  rcases h.find?_loc with hentry | ⟨t, hentry⟩ <;> simp only [hentry]

theorem rewritten (new : RegularFile) : Rewritten d (d.put loc (.file new)) p loc file new := by
  have hagree := agreeOff_put h.find?_loc_ne_directory (.file new)
  have hput := find?_put d (ne_nil_of_find? h.find?_loc_ne_directory) (.file new)
  have hnew : (d.put loc (.file new)).find? loc = some (.file new) := by rw [hput, if_pos rfl]
  refine ⟨h.locate_false, h.read_eq, hnew, h.locate_of_file hagree hnew false,
    read_eq_ok_iff.mpr ⟨loc, h.locate_of_file hagree hnew true, hnew⟩,
    fun l hl => by rw [hput, if_neg hl], fun t hlink => ?_⟩
  have hne : target ≠ loc := by
    rintro rfl
    rw [h.find?_target] at hlink
    cases hlink
  exact ⟨target, hne, h.locate_true, by rw [hput, if_neg hne, h.find?_target]⟩

/-- **Writing by a path** changes the file at its end. -/
theorem write_eq (content : Bytes) :
    d.write p content none = d.put target (.file ⟨content, file.mode, true⟩) := by
  rw [write, h.locate_true]
  simp only [h.find?_target, Option.getD_none]

/-- After the file is overwritten the path names it still. -/
theorem of_write (content : Bytes) :
    (d.write p content none).Names p loc target ⟨content, file.mode, true⟩ := by
  rw [h.write_eq]
  have hshape := sameShape_put h.find?_target ⟨content, file.mode, true⟩
  refine ⟨?_, ?_, ?_⟩
  · rw [← hshape.locate_eq, h.locate_false]
  · rw [← hshape.locate_eq, h.locate_true]
  · rw [find?_put d (ne_nil_of_file h.find?_target), if_pos rfl]

/-- **Overwriting a file with what it holds** changes nothing but that it was written. -/
theorem settle_write : (d.write p file.content none).settle = d.settle := by
  have hfile : d.settle.find? target = some (settled (.file file)) := by
    rw [find?_settle, h.find?_target, Option.map_some]
  rw [h.write_eq, settle_put]
  exact put_self (ne_nil_of_file h.find?_target) hfile

/-- **Removing by a path** takes away the named entry, and the path leads nowhere then. -/
theorem of_remove : (d.remove p).find? loc = none ∧
    (∃ parent n, loc = parent ++ [n] ∧
      ∀ follow, (d.remove p).locate follow p = .ok (.vacant parent n)) ∧
    (d.remove p).read p = .error .notFound := by
  have hremove : d.remove p = d.delete loc := by rw [remove, h.locate_false]
  have hnone : (d.delete loc).find? loc = none := by
    rw [find?_delete d (ne_nil_of_find? h.find?_loc_ne_directory), if_pos List.prefix_rfl]
  obtain ⟨parent, n, hloc, hvacant⟩ :=
    h.locate_of_none (agreeOff_delete h.find?_loc_ne_directory) hnone
  rw [hremove]
  refine ⟨hnone, ⟨parent, n, hloc, hvacant⟩, ?_⟩
  rw [read, hvacant]

end Names

end Delog.Directory

import Delog.Directory.Disk
import Delog.Proofs.Directory.Folder
import Mathlib.Data.List.Nodup
import Mathlib.Data.List.Perm.Subperm

/-!
# Proofs/Directory/Disk — a file is replaced as a whole, or not at all

What is known of a disk is what its steps do: each leaves all but the temporary file as it is.  So
nothing is left of a file that could not be replaced, wherever the disk fails; and one that could be
is the new file, with the permissions of the old one.  With no failure of the disk's own, nothing
else keeps a file that was read from being replaced: the directory for the temporary file is there,
and it is the one that the named entry is in.

* `Lawful.replace_error`, `Lawful.replace_ok` — what a failure leaves, and what a success does
* `Lawful.replace_of_unfailing` — without a failure of the disk's own a file is replaced
* `Steady.replace_cases` — failures that go by the file alone
* `lawful_plain`, `unfailing_plain`, `steady_plain` — the disk with no failures of its own
-/

namespace Delog

open Directory

/-! ## Actions one after the other -/

namespace Action

variable {α β : Type} {x : Action α} {f : α → Action β} {d d' : Directory} {b : β} {e : PathError}

theorem bind_eq_ok_iff : (x >>= f) d = .ok b d' ↔ ∃ a d₁, x d = .ok a d₁ ∧ f a d₁ = .ok b d' := by
  simp only [bind, EStateM.bind]
  cases x d <;> simp

theorem bind_eq_error_iff : (x >>= f) d = .error e d' ↔
    x d = .error e d' ∨ ∃ a d₁, x d = .ok a d₁ ∧ f a d₁ = .error e d' := by
  simp only [bind, EStateM.bind]
  cases x d <;> simp

end Action

namespace Disk

variable {disk : Disk} {d d' : Directory} {p : Path} {loc target temp : Location}
  {file : RegularFile} {content : Bytes} {mode tempMode : Nat} {e : PathError}

theorem orDiscard_apply (disk : Disk) (temp : Location) (action : Action Unit) (d : Directory) :
    disk.orDiscard temp action d = match action d with
      | .ok () d₁ => .ok () d₁
      | .error e d₁ => .error e (disk.discard temp d₁) := by
  simp only [orDiscard, tryCatch, tryCatchThe, MonadExceptOf.tryCatch, EStateM.tryCatch]
  cases action d <;> rfl

theorem orDiscard_eq_ok_iff {action : Action Unit} :
    disk.orDiscard temp action d = .ok () d' ↔ action d = .ok () d' := by
  rw [orDiscard_apply]
  cases action d <;> simp

theorem orDiscard_eq_error_iff {action : Action Unit} :
    disk.orDiscard temp action d = .error e d' ↔
      ∃ d₁, action d = .error e d₁ ∧ d' = disk.discard temp d₁ := by
  rw [orDiscard_apply]
  cases action d <;> simp [eq_comm]

theorem rename_put (hnone : d.find? temp = none) (f : RegularFile) (p : Path) :
    (d.put temp (.file f)).rename temp p = d.replace p f := by
  rw [Directory.rename, find?_put_of_none hnone, unlink_put hnone]

/-! ## What the steps do -/

/-- **A disk of which is known what its steps do.** -/
structure Lawful (disk : Disk) : Prop where
  /-- The permissions are those of the file, and telling them changes nothing. -/
  permissions_ok : ∀ {d d' p mode}, disk.permissions p d = .ok mode d' →
    d' = d ∧ ∀ f, d.read p = .ok f → mode = f.mode
  permissions_error : ∀ {d d' p e}, disk.permissions p d = .error e d' → d' = d
  /-- An empty file is made where there was nothing, in the directory that the path leads to. -/
  create_ok : ∀ {d d' p temp}, disk.create p d = .ok temp d' →
    d.find? temp = none ∧ (∃ mode, d' = d.put temp (.file ⟨[], mode, true⟩)) ∧
      ∃ dir n, d.locate true p = .ok (.existing dir) ∧ temp = dir ++ [n]
  create_error : ∀ {d d' p e}, disk.create p d = .error e d' → d' = d
  /-- The whole content is written into an empty file, or some part of it if that fails. -/
  write_ok : ∀ {d d' temp mode content}, d.find? temp = some (.file ⟨[], mode, true⟩) →
    disk.write temp content d = .ok () d' → d' = d.put temp (.file ⟨content, mode, true⟩)
  write_error : ∀ {d d' temp mode content e}, d.find? temp = some (.file ⟨[], mode, true⟩) →
    disk.write temp content d = .error e d' → ∃ part, d' = d.put temp (.file ⟨part, mode, true⟩)
  sync_ok : ∀ {d d' temp}, disk.sync temp d = .ok () d' → d' = d
  sync_error : ∀ {d d' temp e}, disk.sync temp d = .error e d' → d' = d
  setMode_ok : ∀ {d d' temp f mode}, d.find? temp = some (.file f) →
    disk.setMode temp mode d = .ok () d' → d' = d.put temp (.file { f with mode })
  setMode_error : ∀ {d d' temp mode e}, disk.setMode temp mode d = .error e d' → d' = d
  /-- The file takes the place of what the path names. -/
  rename_ok : ∀ {d d' temp p}, disk.rename temp p d = .ok () d' → d.rename temp p = .ok d'
  rename_error : ∀ {d d' temp p e}, disk.rename temp p d = .error e d' → d' = d
  /-- A file that is discarded is gone. -/
  discard_eq : ∀ {d temp f}, d.find? temp = some (.file f) → disk.discard temp d = d.unlink temp

namespace Lawful

variable (h : disk.Lawful)
include h

/-- **A temporary file that is not completed** is all that has changed. -/
theorem complete_error (hnone : d.find? temp = none)
    (hrun : disk.complete temp content mode p (d.put temp (.file ⟨[], tempMode, true⟩)) =
      .error e d') : ∃ f, d' = d.put temp (.file f) := by
  have hfind := fun f : RegularFile => find?_put_of_none hnone (.file f)
  rw [complete, Action.bind_eq_error_iff] at hrun
  rcases hrun with hwrite | ⟨⟨⟩, d₁, hwrite, hrun⟩
  · obtain ⟨part, rfl⟩ := h.write_error (hfind _) hwrite
    exact ⟨_, put_put d temp _ _⟩
  obtain rfl := h.write_ok (hfind _) hwrite
  rw [put_put, Action.bind_eq_error_iff] at hrun
  rcases hrun with hsync | ⟨⟨⟩, d₂, hsync, hrun⟩
  · exact ⟨_, h.sync_error hsync⟩
  obtain rfl := h.sync_ok hsync
  rw [Action.bind_eq_error_iff] at hrun
  rcases hrun with hmode | ⟨⟨⟩, d₃, hmode, hrun⟩
  · exact ⟨_, h.setMode_error hmode⟩
  obtain rfl := h.setMode_ok (hfind _) hmode
  rw [put_put] at hrun
  exact ⟨_, h.rename_error hrun⟩

/-- **A temporary file that is completed** has taken its place. -/
theorem complete_ok (hnone : d.find? temp = none)
    (hrun : disk.complete temp content mode p (d.put temp (.file ⟨[], tempMode, true⟩)) =
      .ok () d') : d.replace p ⟨content, mode, true⟩ = .ok d' := by
  have hfind := fun f : RegularFile => find?_put_of_none hnone (.file f)
  rw [complete, Action.bind_eq_ok_iff] at hrun
  obtain ⟨⟨⟩, d₁, hwrite, hrun⟩ := hrun
  obtain rfl := h.write_ok (hfind _) hwrite
  rw [put_put, Action.bind_eq_ok_iff] at hrun
  obtain ⟨⟨⟩, d₂, hsync, hrun⟩ := hrun
  obtain rfl := h.sync_ok hsync
  rw [Action.bind_eq_ok_iff] at hrun
  obtain ⟨⟨⟩, d₃, hmode, hrun⟩ := hrun
  obtain rfl := h.setMode_ok (hfind _) hmode
  rw [put_put] at hrun
  rw [← rename_put hnone]
  exact h.rename_ok hrun

/-- **Nothing is left of a file that could not be replaced**, wherever the disk failed. -/
theorem replace_error (hrun : disk.replace p content d = .error e d') : d' = d := by
  rw [replace, Action.bind_eq_error_iff] at hrun
  rcases hrun with hmode | ⟨mode, d₁, hmode, hrun⟩
  · exact h.permissions_error hmode
  obtain ⟨rfl, -⟩ := h.permissions_ok hmode
  rw [Action.bind_eq_error_iff] at hrun
  rcases hrun with hcreate | ⟨temp, d₂, hcreate, hrun⟩
  · exact h.create_error hcreate
  obtain ⟨hnone, ⟨tempMode, rfl⟩, -⟩ := h.create_ok hcreate
  obtain ⟨d₃, hcomplete, rfl⟩ := orDiscard_eq_error_iff.mp hrun
  obtain ⟨f, rfl⟩ := h.complete_error hnone hcomplete
  rw [h.discard_eq (find?_put_of_none hnone _), unlink_put hnone]

/-- **A file that is replaced** is the new one, with the permissions of the one that was read. -/
theorem replace_ok (hnames : d.Names p loc target file)
    (hrun : disk.replace p content d = .ok () d') :
    d' = d.put loc (.file ⟨content, file.mode, true⟩) := by
  rw [replace, Action.bind_eq_ok_iff] at hrun
  obtain ⟨mode, d₁, hmode, hrun⟩ := hrun
  obtain ⟨rfl, hfile⟩ := h.permissions_ok hmode
  obtain rfl := hfile file hnames.read_eq
  rw [Action.bind_eq_ok_iff] at hrun
  obtain ⟨temp, d₂, hcreate, hrun⟩ := hrun
  obtain ⟨hnone, ⟨tempMode, rfl⟩, -⟩ := h.create_ok hcreate
  have hplace := h.complete_ok hnone (orDiscard_eq_ok_iff.mp hrun)
  rw [hnames.replace_eq] at hplace
  exact (Except.ok.inj hplace).symm

end Lawful

/-! ## Disks that do not fail -/

/-- **A disk with no failure of its own** when the file at a path is replaced: each step succeeds
whenever what it is about is there. -/
structure Unfailing (disk : Disk) (p : Path) : Prop where
  permissions : ∀ {d f}, d.read p = .ok f → ∃ mode d', disk.permissions p d = .ok mode d'
  create : ∀ {d dir}, d.locate true p.folder = .ok (.existing dir) →
    d.find? dir = some .directory → ∃ temp d', disk.create p.folder d = .ok temp d'
  write : ∀ {d temp f}, d.find? temp = some (.file f) →
    ∀ content, ∃ d', disk.write temp content d = .ok () d'
  sync : ∀ {d temp f}, d.find? temp = some (.file f) → ∃ d', disk.sync temp d = .ok () d'
  setMode : ∀ {d temp f}, d.find? temp = some (.file f) →
    ∀ mode, ∃ d', disk.setMode temp mode d = .ok () d'
  /-- A file is moved to the place of an entry of the same directory. -/
  rename : ∀ {d d' dir m n}, (d.unlink (dir ++ [m])).locate false p = .ok (.existing (dir ++ [n])) →
    d.rename (dir ++ [m]) p = .ok d' → ∃ d'', disk.rename (dir ++ [m]) p d = .ok () d''

/-- A temporary file beside the named entry is completed. -/
theorem Lawful.exists_complete_of_unfailing (h : disk.Lawful) (hp : disk.Unfailing p)
    {dir : Location} {m n : Name} (hnames : d.Names p (dir ++ [n]) target file)
    (hnone : d.find? (dir ++ [m]) = none) (content : Bytes) (mode tempMode : Nat) :
    ∃ d', disk.complete (dir ++ [m]) content mode p
      (d.put (dir ++ [m]) (.file ⟨[], tempMode, true⟩)) = .ok () d' := by
  have hfind := fun f : RegularFile => find?_put_of_none hnone (.file f)
  obtain ⟨d₁, hwrite⟩ := hp.write (hfind ⟨[], tempMode, true⟩) content
  obtain rfl := h.write_ok (hfind _) hwrite
  rw [put_put] at hwrite
  obtain ⟨d₂, hsync⟩ := hp.sync (hfind ⟨content, tempMode, true⟩)
  obtain rfl := h.sync_ok hsync
  obtain ⟨d₃, hmode⟩ := hp.setMode (hfind ⟨content, tempMode, true⟩) mode
  obtain rfl := h.setMode_ok (hfind _) hmode
  rw [put_put] at hmode
  have hmoved := (rename_put hnone ⟨content, mode, true⟩ p).trans (hnames.replace_eq _)
  have hlocate := hnames.locate_false
  rw [← unlink_put hnone (.file ⟨content, mode, true⟩)] at hlocate
  obtain ⟨d₄, hrename⟩ := hp.rename hlocate hmoved
  exact ⟨d₄, Action.bind_eq_ok_iff.mpr ⟨(), _, hwrite, Action.bind_eq_ok_iff.mpr
    ⟨(), _, hsync, Action.bind_eq_ok_iff.mpr ⟨(), _, hmode, hrename⟩⟩⟩⟩

/-- **With no failure of the disk's own** a file that can be read can be replaced. -/
theorem Lawful.replace_of_unfailing (h : disk.Lawful) (hp : disk.Unfailing p)
    (hnames : d.Names p loc target file) (content : Bytes) :
    disk.replace p content d = .ok () (d.put loc (.file ⟨content, file.mode, true⟩)) := by
  obtain ⟨dir, n, rfl, hdir, hfolder⟩ := hnames.locate_folder
  obtain ⟨mode, d₁, hmode⟩ := hp.permissions hnames.read_eq
  obtain ⟨rfl, -⟩ := h.permissions_ok hmode
  obtain ⟨temp, d₂, hcreate⟩ := hp.create hfolder hdir
  obtain ⟨hnone, ⟨tempMode, rfl⟩, dir', m, hfolder', rfl⟩ := h.create_ok hcreate
  cases hfolder.symm.trans hfolder'
  obtain ⟨d', hcomplete⟩ := h.exists_complete_of_unfailing hp hnames hnone content mode tempMode
  have hrun : disk.replace p content d₁ = .ok () d' :=
    Action.bind_eq_ok_iff.mpr ⟨mode, _, hmode, Action.bind_eq_ok_iff.mpr
      ⟨_, _, hcreate, orDiscard_eq_ok_iff.mpr hcomplete⟩⟩
  rw [hrun, h.replace_ok hnames hrun]

/-- **A disk whose failures go by the file alone**: whether a file is replaced, and why not, is the
same in directories of one shape if the same is read there. -/
def Steady (disk : Disk) : Prop :=
  ∀ ⦃d D p f content e⦄, SameShape d D → d.read p = .ok f → D.read p = .ok f →
    (∃ d', disk.replace p content d = .error e d') → ∃ D', disk.replace p content D = .error e D'

/-- **A steady disk** replaces a file in every directory of one shape in which the file is the same,
or in none of them. -/
theorem Steady.replace_cases (hsteady : disk.Steady) (h : disk.Lawful)
    (hnames : d.Names p loc target file) (content : Bytes) :
    (∀ D, SameShape d D → D.read p = d.read p →
      disk.replace p content D = .ok () (D.put loc (.file ⟨content, file.mode, true⟩))) ∨
    ∃ e, ∀ D, SameShape d D → D.read p = d.read p → disk.replace p content D = .error e D := by
  cases hrun : disk.replace p content d with
  | ok _ d' =>
    refine .inl fun D hshape hread => ?_
    have hnamesD := hnames.of_sameShape hshape hread
    cases hrunD : disk.replace p content D with
    | ok _ D' => rw [h.replace_ok hnamesD hrunD]
    | error e D' =>
      obtain ⟨d'', hfail⟩ := hsteady hshape.symm hnamesD.read_eq hnames.read_eq ⟨D', hrunD⟩
      cases hrun.symm.trans hfail
  | error e d' =>
    refine .inr ⟨e, fun D hshape hread => ?_⟩
    have hnamesD := hnames.of_sameShape hshape hread
    obtain ⟨D', hrunD⟩ := hsteady hshape hnames.read_eq hnamesD.read_eq ⟨d', hrun⟩
    rw [hrunD, h.replace_error hrunD]

/-! ## The disk with no failures of its own -/

theorem tempName_injective : Function.Injective tempName := by
  intro j k h
  have hlength := congrArg List.length h
  simp only [tempName, List.length_append, List.length_replicate] at hlength
  omega

/-- There are more names of temporary files than entries. -/
theorem exists_find?_eq_none (d : Directory) (dir : Location) :
    ∃ k < d.entries.length + 1, d.find? (dir ++ [tempName k]) = none := by
  by_contra! h
  let locations := (List.range (d.entries.length + 1)).map fun k => dir ++ [tempName k]
  have hnodup : locations.Nodup :=
    List.nodup_range.map fun j k hjk => tempName_injective (by simpa using hjk)
  have hsubset : locations ⊆ d.entries.map (·.1) := by
    intro loc hloc
    obtain ⟨k, hk, rfl⟩ := List.mem_map.mp hloc
    obtain ⟨e, he⟩ := Option.ne_none_iff_exists'.mp (h k (List.mem_range.mp hk))
    exact List.mem_map_of_mem (mem_of_find? he (by simp))
  have hlength := (List.subperm_of_subset hnodup hsubset).length_le
  simp only [locations, List.length_map, List.length_range] at hlength
  omega

/-- **There is a free location** for a temporary file in every directory. -/
theorem freeLocation_spec (d : Directory) (dir : Location) :
    d.find? (freeLocation d dir) = none ∧ ∃ n, freeLocation d dir = dir ++ [n] := by
  obtain ⟨k, hk, hnone⟩ := exists_find?_eq_none d dir
  let locations := (List.range (d.entries.length + 1)).map fun k => dir ++ [tempName k]
  have hfind : (locations.find? fun loc => (d.find? loc).isNone).isSome = true :=
    List.find?_isSome.mpr ⟨_, List.mem_map_of_mem (List.mem_range.mpr hk), by simp [hnone]⟩
  obtain ⟨loc, hloc⟩ := Option.isSome_iff_exists.mp hfind
  have hfree : freeLocation d dir = loc := by
    rw [freeLocation, hloc]
    rfl
  obtain ⟨j, -, rfl⟩ := List.mem_map.mp (List.mem_of_find?_eq_some hloc)
  rw [hfree]
  exact ⟨by simpa using List.find?_some hloc, _, rfl⟩

theorem change_of_file (h : d.find? temp = some (.file file)) (g : RegularFile → RegularFile) :
    change temp g d = .ok () (d.put temp (.file (g file))) := by
  rw [change, h]

theorem change_eq_error {g : RegularFile → RegularFile} (h : change temp g d = .error e d') :
    d' = d := by
  rw [change] at h
  split at h <;> cases h
  rfl

/-- **On the disk with no failures of its own** the steps do what they should. -/
theorem lawful_plain : plain.Lawful where
  permissions_ok {d d' p mode} h := by
    simp only [plain] at h
    split at h
    · rename_i file hfile
      cases h
      exact ⟨rfl, fun f hf => congrArg _ (Except.ok.inj (hfile.symm.trans hf))⟩
    · cases h
  permissions_error {d d' p e} h := by
    simp only [plain] at h
    split at h <;> cases h
    rfl
  create_ok {d d' p temp} h := by
    simp only [plain] at h
    split at h
    · cases h
    split at h
    · split at h <;> cases h
      obtain ⟨hnone, n, hn⟩ := freeLocation_spec d ‹_›
      exact ⟨hnone, ⟨_, rfl⟩, _, n, ‹_›, hn⟩
    · cases h
    · cases h
  create_error {d d' p e} h := by
    simp only [plain] at h
    split at h
    · cases h
      rfl
    split at h
    · split at h <;> cases h
      rfl
    · cases h
      rfl
    · cases h
      rfl
  write_ok {d d' temp mode content} hfile h := by
    simp only [plain, change_of_file hfile] at h
    cases h
    rfl
  write_error {d d' temp mode content e} hfile h := by
    simp only [plain, change_of_file hfile] at h
    cases h
  sync_ok {d d' temp} h := by
    cases h
    rfl
  sync_error {d d' temp e} h := by cases h
  setMode_ok {d d' temp f mode} hfile h := by
    simp only [plain, change_of_file hfile] at h
    cases h
    rfl
  setMode_error {d d' temp mode e} h := change_eq_error h
  rename_ok {d d' temp p} h := by
    simp only [plain] at h
    split at h <;> cases h
    exact ‹_›
  rename_error {d d' temp p e} h := by
    simp only [plain] at h
    split at h <;> cases h
    rfl
  discard_eq _ := rfl

/-- It does not fail where there is room for the name of a temporary file. -/
theorem unfailing_plain (hroom : hasRoom p.folder = true) : plain.Unfailing p where
  permissions {d f} h := ⟨f.mode, d, by simp only [plain, h]⟩
  create {d dir} hlocate hdir := by
    simp only [plain, hroom, hlocate, if_pos hdir]
    exact ⟨_, _, rfl⟩
  write hfile _ := ⟨_, change_of_file hfile _⟩
  sync _ := ⟨_, rfl⟩
  setMode hfile _ := ⟨_, change_of_file hfile _⟩
  rename {d d' dir m n} _ h := ⟨d', by simp only [plain, h]⟩

/-- Where there is no room for that, no file is replaced. -/
theorem replace_plain_of_not_hasRoom (hroom : hasRoom p.folder = false)
    (hread : d.read p = .ok file) (content : Bytes) :
    plain.replace p content d = .error .nameTooLong d := by
  refine Action.bind_eq_error_iff.mpr (.inr ⟨file.mode, d, ?_, ?_⟩)
  · simp only [plain, hread]
  · refine Action.bind_eq_error_iff.mpr (.inl ?_)
    simp only [plain, hroom]
    rfl

theorem steady_plain : plain.Steady := by
  intro d D p f content e _ hread hreadD ⟨d', hrun⟩
  cases hroom : hasRoom p.folder with
  | true =>
    obtain ⟨loc, target, hnames⟩ := exists_names hread
    cases hrun.symm.trans (lawful_plain.replace_of_unfailing (unfailing_plain hroom) hnames content)
  | false =>
    cases hrun.symm.trans (replace_plain_of_not_hasRoom hroom hread content)
    exact ⟨D, replace_plain_of_not_hasRoom hroom hreadD content⟩

end Disk

end Delog

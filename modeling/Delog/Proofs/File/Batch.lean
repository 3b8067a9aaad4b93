import Delog.File.Batch
import Delog.Proofs.Directory.Revise
import Delog.Proofs.File.Outcome
import Mathlib.Algebra.GroupWithZero.Nat

/-!
# Proofs/File/Batch — a batch does to each file what a run does alone

The files of a batch are independent if no path names a link and no two paths name one file.  Then a
file is processed as if the others were not there: it is read as it was at first, whatever became
of those before it, and its new version takes its place among the others.  So the order in which the
files are processed does not matter.

* `BatchReport.parted` — the parts of a report make up its entries
* `Job.alone_eq` — a file is processed as it was at first
* `Batch.step_eq`, `Batch.foldl_step` — what a step and a whole batch come to, file by file
* `Batch.report_entries` — a report lists the files in the order given
* `Batch.isolated_run` — a batch does to each file what a run does alone
-/

namespace Delog

open Directory

/-! ## The parts of a report -/

/-- What became of a file, in a word. -/
inductive Fate where
  | modified
  | unchanged
  | failed
deriving DecidableEq, Repr

/-- **What became of a file of a batch.** -/
def BatchEntry.fate (e : BatchEntry) : Fate :=
  match e.result with
  | .ok (.modified ..) => .modified
  | .ok (.unchanged _) => .unchanged
  | .error _ => .failed

namespace BatchReport

/-- **The parts of a report make up its entries**, each part in their order. -/
structure Parted (r : BatchReport) : Prop where
  modified : r.modified.map .ok = (r.entries.filter (·.fate = .modified)).map (·.result)
  unchanged : r.unchanged.map .ok = (r.entries.filter (·.fate = .unchanged)).map (·.result)
  failures : r.failures.map (fun f => (f.1, Except.error f.2)) =
    (r.entries.filter (·.fate = .failed)).map fun e => (e.path, e.result)
  length : r.modified.length + r.unchanged.length + r.failures.length = r.entries.length

/-- Every entry has one fate of three. -/
theorem length_filter_fate (es : List BatchEntry) :
    (es.filter (·.fate = .modified)).length + (es.filter (·.fate = .unchanged)).length +
      (es.filter (·.fate = .failed)).length = es.length := by
  induction es with
  | nil => rfl
  | cons e es ih =>
    rw [List.length_cons, ← ih]
    cases h : e.fate <;> simp [h] <;> omega

theorem parted (r : BatchReport) : r.Parted := by
  have hparts : r.modified.map .ok = (r.entries.filter (·.fate = .modified)).map (·.result) ∧
      r.unchanged.map .ok = (r.entries.filter (·.fate = .unchanged)).map (·.result) ∧
      r.failures.map (fun f => (f.1, Except.error f.2)) =
        (r.entries.filter (·.fate = .failed)).map fun e => (e.path, e.result) := by
    obtain ⟨entries⟩ := r
    induction entries with
    | nil => exact ⟨rfl, rfl, rfl⟩
    | cons e es ih =>
      obtain ⟨hmodified, hunchanged, hfailures⟩ := ih
      rcases e with ⟨path, error | ⟨q, count, before, after⟩ | q⟩
      · exact ⟨hmodified, hunchanged, congrArg (_ :: ·) hfailures⟩
      · exact ⟨congrArg (_ :: ·) hmodified, hunchanged, hfailures⟩
      · exact ⟨hmodified, congrArg (_ :: ·) hunchanged, hfailures⟩
  obtain ⟨hmodified, hunchanged, hfailures⟩ := hparts
  refine ⟨hmodified, hunchanged, hfailures, ?_⟩
  have h₁ := congrArg List.length hmodified
  have h₂ := congrArg List.length hunchanged
  have h₃ := congrArg List.length hfailures
  rw [List.length_map, List.length_map] at h₁ h₂ h₃
  rw [h₁, h₂, h₃, length_filter_fate]

/-- **The bytes of a report** are those of the files with logging statements. -/
theorem bytesRemoved_eq_sum (r : BatchReport) :
    r.bytesRemoved = (r.modified.map (·.bytesRemoved)).sum := by
  rw [bytesRemoved, List.sum, List.foldr_map]

end BatchReport

/-! ## A file of a batch, alone -/

variable {disk : Disk} {s : Stripper} {mode : WriteMode} {d D : Directory} {j : Job}

namespace Job

/-- What processing the file alone comes to. -/
def alone (disk : Disk) (s : Stripper) (mode : WriteMode) (d : Directory) (j : Job) : Processed :=
  processFileBy disk (id : Fingerprint Bytes) s mode j.path j.trees .nothing d

/-- The entry of the file, processed alone, in a report. -/
def entry (disk : Disk) (s : Stripper) (mode : WriteMode) (d : Directory) (j : Job) : BatchEntry :=
  ⟨j.path, (j.alone disk s mode d).result⟩

/-- The events of the file, processed alone, in a batch. -/
def events (disk : Disk) (s : Stripper) (mode : WriteMode) (d : Directory) (j : Job) : List Event :=
  (j.alone disk s mode d).events ++ Batch.failureEvents j.path (j.alone disk s mode d).result

/-- **The new version of the file**, and its location, if a run alone makes one. -/
def version (disk : Disk) (s : Stripper) (mode : WriteMode) (d : Directory) (j : Job) :
    Option (Location × RegularFile) :=
  match mode, (j.alone disk s mode d).result, d.locate false j.path with
  | .write, .ok (.modified ..), .ok (.existing loc) =>
    match (j.alone disk s mode d).directory.find? loc with
    | some (.file new) => some (loc, new)
    | _ => none
  | _, _, _ => none

/-- **The path names no link.** -/
def NamesNoLink (d : Directory) (j : Job) : Prop :=
  ∀ loc t, d.locate false j.path = .ok (.existing loc) → d.find? loc ≠ some (.link t)

/-- **Two paths name no file both.** -/
def Independent (d : Directory) (j k : Job) : Prop :=
  ∀ loc file, d.find? loc = some (.file file) → d.locate true j.path = .ok (.existing loc) →
    d.locate true k.path ≠ .ok (.existing loc)

theorem Independent.symm {k : Job} (h : Independent d j k) : Independent d k j :=
  fun loc file hfile hk hj => h loc file hfile hj hk

/-- A path that names no link names the file that is read by it. -/
theorem NamesNoLink.exists_names (h : j.NamesNoLink d) {file : RegularFile}
    (hread : d.read j.path = .ok file) : ∃ loc, d.Names j.path loc loc file := by
  obtain ⟨loc, target, hnames⟩ := Directory.exists_names hread
  rcases hnames.entry.1 with rfl | ⟨t, hlink⟩
  · exact ⟨loc, hnames⟩
  · exact absurd hlink (h loc t hnames.locate_false)

section

variable {loc : Location} {file : RegularFile} {text : Text} {count : Nat}

theorem alone_check_eq (h : Strips s j.path j.trees d file text count) :
    j.alone disk s .check d =
      ⟨.ok (strippedOutcome j.path file text count), d, [removedEvent j.path file text count]⟩ := by
  rw [alone, h.check_eq, Interference.act]

theorem alone_write_eq (disk : Disk) (h : Strips s j.path j.trees d file text count) :
    j.alone disk s .write d =
      match disk.replace j.path (Text.encode text) d with
      | .error e d' => ⟨.error (.io j.path e), d', [removedEvent j.path file text count]⟩
      | .ok () d' => ⟨.ok (strippedOutcome j.path file text count), d',
          [removedEvent j.path file text count, replacedEvent j.path file text count]⟩ :=
  h.write_known_eq .nothing h.read rfl

end

section

variable (hdisk : disk.Lawful) (hsteady : disk.Steady)
include hdisk hsteady

/-- **What a run alone does**: it puts a new version of the file in its place, which is the text it
comes to; or it does nothing.  It does the same in any directory of one shape in which the file is
the same. -/
theorem alone_cases (s : Stripper) (mode : WriteMode) (hlink : j.NamesNoLink d) :
    (∃ loc file text count, mode = .write ∧ Strips s j.path j.trees d file text count ∧
      d.Names j.path loc loc file ∧
      j.version disk s mode d = some (loc, ⟨Text.encode text, file.mode, true⟩) ∧
      ∀ D, SameShape d D → D.read j.path = d.read j.path → j.alone disk s mode D =
        ⟨.ok (strippedOutcome j.path file text count),
          D.put loc (.file ⟨Text.encode text, file.mode, true⟩), (j.alone disk s mode d).events⟩) ∨
    (mode = .check ∨ ∀ o, (j.alone disk s mode d).result = .ok o → o = .unchanged j.path) ∧
      j.version disk s mode d = none ∧
      ∀ D, SameShape d D → D.read j.path = d.read j.path → j.alone disk s mode D =
        ⟨(j.alone disk s mode d).result, D, (j.alone disk s mode d).events⟩ := by
  rcases processFileBy_cases s j.path j.trees d with ⟨file, text, count, h⟩ | ⟨_, _, hres, -, heq⟩
  · cases mode with
    | check =>
      refine .inr ⟨.inl rfl, rfl, fun D _ hread => ?_⟩
      rw [alone_check_eq h, alone_check_eq (h.of_read_eq hread)]
    | write =>
      obtain ⟨loc, hnames⟩ := hlink.exists_names h.read
      rcases hsteady.replace_cases hdisk hnames (Text.encode text) with hok | ⟨e, hfail⟩
      · have hself := alone_write_eq disk h
        rw [hok d (.refl d) rfl] at hself
        refine .inl ⟨loc, file, text, count, rfl, h, hnames, ?_, fun D hshape hread => ?_⟩
        · simp only [version, hself, hnames.locate_false, strippedOutcome,
            (hnames.rewritten _).find?_new]
        · rw [alone_write_eq disk (h.of_read_eq hread), hok D hshape hread, hself]
      · have hself := alone_write_eq disk h
        rw [hfail d (.refl d) rfl] at hself
        refine .inr ⟨.inr fun o ho => ?_, ?_, fun D hshape hread => ?_⟩
        · rw [hself] at ho
          cases ho
        · simp only [version, hself]
        · rw [alone_write_eq disk (h.of_read_eq hread), hfail D hshape hread, hself]
  · have hrun : ∀ D, D.read j.path = d.read j.path → j.alone disk s mode D = ⟨_, D, _⟩ :=
      heq disk Bytes id mode .nothing
    have halone := hrun d rfl
    refine .inr ⟨.inr fun o ho => hres o (by rwa [halone] at ho), ?_, fun D _ hread => ?_⟩
    · have hnot : ∀ q n before after,
          (j.alone disk s mode d).result ≠ .ok (.modified q n before after) :=
        fun q n before after ho => by cases hres _ (by rwa [halone] at ho)
      unfold version
      split
      · exact absurd ‹_› (hnot _ _ _ _)
      · rfl
    · rw [hrun D hread, halone]

/-- **A file is processed as it was at first**, in any directory of one shape with the first one in
which the same is read from it. -/
theorem alone_eq (hlink : j.NamesNoLink d) (hshape : SameShape d D)
    (hread : D.read j.path = d.read j.path) :
    j.alone disk s mode D = ⟨(j.alone disk s mode d).result,
      D.reviseAll (j.version disk s mode d).toList, (j.alone disk s mode d).events⟩ := by
  rcases alone_cases hdisk hsteady s mode hlink with
    ⟨loc, file, text, count, -, -, hnames, hversion, heq⟩ | ⟨-, hversion, heq⟩
  · have hnamesD := hnames.of_sameShape hshape hread
    rw [heq D hshape hread, heq d (.refl d) rfl, hversion, Option.toList_some, reviseAll_cons,
      revise_of_file hnamesD.find?_target]
    rfl
  · rw [heq D hshape hread, hversion]
    rfl

/-- **A new version is one of the file that the path names**, and a run that writes makes it. -/
theorem of_version (hlink : j.NamesNoLink d) {v : Location × RegularFile}
    (hv : j.version disk s mode d = some v) :
    mode = .write ∧ (j.entry disk s mode d).fate = .modified ∧
      ∃ file, d.Names j.path v.1 v.1 file := by
  rcases alone_cases hdisk hsteady s mode hlink with
    ⟨loc, file, text, count, rfl, -, hnames, hversion, heq⟩ | ⟨-, hversion, -⟩
  · obtain rfl := Option.some.inj (hversion.symm.trans hv)
    refine ⟨rfl, ?_, file, hnames⟩
    rw [entry, heq d (.refl d) rfl]
    rfl
  · rw [hversion] at hv
    cases hv

/-- The new version of a file is not at the end of the path of a file that is independent of it. -/
theorem Independent.locate_ne {k : Job} (h : Independent d j k) (hlink : j.NamesNoLink d)
    {v : Location × RegularFile} (hv : j.version disk s mode d = some v) :
    d.locate true k.path ≠ .ok (.existing v.1) := by
  obtain ⟨-, -, file, hnames⟩ := of_version hdisk hsteady hlink hv
  exact h v.1 file hnames.find?_target hnames.locate_true

/-- Independent files have their new versions at different locations. -/
theorem Independent.version_ne {k : Job} (h : Independent d j k) (hj : j.NamesNoLink d)
    (hk : k.NamesNoLink d) {v w : Location × RegularFile} (hv : j.version disk s mode d = some v)
    (hw : k.version disk s mode d = some w) : v.1 ≠ w.1 := by
  obtain ⟨-, -, file, hnames⟩ := of_version hdisk hsteady hk hw
  intro heq
  exact h.locate_ne hdisk hsteady hj hv (heq ▸ hnames.locate_true)

end

end Job

/-! ## The files of a batch, one after the other -/

namespace Batch

variable {jobs : List Job} {schedule : List (Nat × Job)} {b : BatchProgress}

/-- The new versions that a schedule makes. -/
def versions (disk : Disk) (s : Stripper) (mode : WriteMode) (d : Directory)
    (schedule : List (Nat × Job)) : List (Location × RegularFile) :=
  schedule.filterMap fun x => x.2.version disk s mode d

section

variable (hdisk : disk.Lawful) (hsteady : disk.Steady)
include hdisk hsteady

/-- **One step of a batch** does to its file what a run does alone at first. -/
theorem step_eq {x : Nat × Job} (hlink : x.2.NamesNoLink d) (hshape : SameShape d b.directory)
    (hread : b.directory.read x.2.path = d.read x.2.path) :
    step disk s mode b x = ⟨b.entries ++ [(x.1, x.2.entry disk s mode d)],
      b.directory.reviseAll (versions disk s mode d [x]),
      b.events ++ x.2.events disk s mode d⟩ := by
  have halone : processFileBy disk id s mode x.2.path x.2.trees .nothing b.directory = _ :=
    x.2.alone_eq hdisk hsteady hlink hshape hread
  have hversions : versions disk s mode d [x] = (x.2.version disk s mode d).toList := by
    rw [versions]
    cases h : x.2.version disk s mode d <;> simp [h]
  rw [step, halone, hversions, List.append_assoc]
  rfl

/-- **All steps of a batch** do to their files what runs do alone at first.  The new version of a
file is not seen by the paths of the others. -/
theorem foldl_step (hlinks : ∀ x ∈ schedule, x.2.NamesNoLink d)
    (hdistinct : schedule.Pairwise fun x y => Job.Independent d x.2 y.2)
    (hshape : SameShape d b.directory)
    (hread : ∀ x ∈ schedule, b.directory.read x.2.path = d.read x.2.path) :
    schedule.foldl (step disk s mode) b =
      ⟨b.entries ++ schedule.map fun x => (x.1, x.2.entry disk s mode d),
        b.directory.reviseAll (versions disk s mode d schedule),
        b.events ++ schedule.flatMap fun x => x.2.events disk s mode d⟩ := by
  induction schedule generalizing b with
  | nil => simp [versions, reviseAll]
  | cons x xs ih =>
    obtain ⟨hfirst, hdistinct⟩ := List.pairwise_cons.mp hdistinct
    obtain ⟨hlink, hlinks⟩ := List.forall_mem_cons.mp hlinks
    obtain ⟨hreadx, hread⟩ := List.forall_mem_cons.mp hread
    have hframe : ∀ y ∈ xs,
        (b.directory.reviseAll (versions disk s mode d [x])).read y.2.path = d.read y.2.path := by
      intro y hy
      rw [← hread y hy]
      refine read_reviseAll fun v hv => ?_
      obtain ⟨x', hx', hversion⟩ := List.mem_filterMap.mp hv
      obtain rfl := List.mem_singleton.mp hx'
      rw [← hshape.locate_eq]
      exact (hfirst y hy).locate_ne hdisk hsteady hlink hversion
    rw [List.foldl_cons, step_eq hdisk hsteady hlink hshape hreadx,
      ih hlinks hdistinct (hshape.trans (sameShape_reviseAll _ _)) hframe]
    have hcons : versions disk s mode d (x :: xs) =
        versions disk s mode d [x] ++ versions disk s mode d xs :=
      List.filterMap_append (l := [x])
    simp [hcons, reviseAll_append, List.append_assoc]

end

theorem numbered_map_fst (jobs : List Job) :
    (numbered jobs).map (·.1) = List.range' 0 jobs.length := by
  rw [numbered, List.map_map]
  exact List.zipIdx_map_snd 0 jobs

theorem numbered_map_snd (jobs : List Job) : (numbered jobs).map (·.2) = jobs := by
  rw [numbered, List.map_map]
  exact List.zipIdx_map_fst 0 jobs

/-- **A report lists the files in the order given**, whatever order they were processed in. -/
theorem report_entries (hschedule : schedule.Perm (numbered jobs)) {f : Job → BatchEntry}
    (hentries : b.entries = schedule.map fun x => (x.1, f x.2)) :
    b.report.entries = jobs.map f := by
  let given := (numbered jobs).map fun x => (x.1, f x.2)
  have hfst : given.map (·.1) = List.range' 0 jobs.length := by
    rw [List.map_map]
    exact numbered_map_fst jobs
  have hgiven : given.Pairwise fun x y => x.1 ≤ y.1 := by
    rw [← List.pairwise_map (f := Prod.fst), hfst]
    exact List.pairwise_le_range'
  have hmerged : (b.entries.mergeSort fun x y => decide (x.1 ≤ y.1)).Pairwise
      fun x y => x.1 ≤ y.1 := by
    refine (List.pairwise_mergeSort ?_ ?_ b.entries).imp of_decide_eq_true
    · simpa using fun x _ y _ z _ => Nat.le_trans
    · simpa using fun x _ y _ => Nat.le_total x y
  have hperm : (b.entries.mergeSort fun x y => decide (x.1 ≤ y.1)).Perm given := by
    refine (List.mergeSort_perm _ _).trans ?_
    rw [hentries]
    exact hschedule.map _
  have hsame : (b.entries.mergeSort fun x y => decide (x.1 ≤ y.1)) = given := by
    refine hperm.eq_of_pairwise (fun x y hx hy hxy hyx => ?_) hmerged hgiven
    exact List.inj_on_of_nodup_map (hfst ▸ List.nodup_range') (hperm.subset hx) hy
      (Nat.le_antisymm hxy hyx)
  rw [BatchProgress.report, hsame]
  calc given.map (·.2) = ((numbered jobs).map (·.2)).map f := by
        rw [List.map_map, List.map_map]
        rfl
    _ = jobs.map f := by rw [numbered_map_snd]

/-- **Of the events of a batch**, those of a failure are the only warnings. -/
theorem filter_events (s : Stripper) (mode : WriteMode) (d : Directory) (j : Job) :
    (j.events disk s mode d).filter (·.level = .warn) =
      failureEvents j.path (j.alone disk s mode d).result := by
  have hfailure : ∀ result : Except FileError FileOutcome,
      (failureEvents j.path result).filter (·.level = .warn) = failureEvents j.path result
    | .error _ => rfl
    | .ok _ => rfl
  have halone : (j.alone disk s mode d).events.filter (·.level = .warn) = [] := by
    rw [Job.alone]
    rcases processFileBy_cases s j.path j.trees d with ⟨file, text, count, h⟩ | ⟨_, _, -, hev, heq⟩
    · cases mode with
      | check =>
        rw [h.check_eq]
        rfl
      | write =>
        rw [h.write_eq]
        split <;> rfl
    · rw [heq disk Bytes id mode .nothing d rfl, List.filter_eq_nil_iff]
      intro e he
      obtain ⟨name, rfl⟩ := hev e he
      simp [Event.level]
  rw [Job.events, List.filter_append, halone, hfailure, List.nil_append]

/-- The failures of a report, as events. -/
theorem failures_map (r : BatchReport) :
    r.failures.map (fun f => Event.failed f.1 f.2.message) =
      r.entries.flatMap fun e => failureEvents e.path e.result := by
  obtain ⟨entries⟩ := r
  induction entries with
  | nil => rfl
  | cons e es ih =>
    obtain ⟨path, error | outcome⟩ := e
    · exact congrArg (Event.failed path error.message :: ·) ih
    · exact ih

/-- **A batch that does to each file what a run does alone.** -/
structure Isolated (disk : Disk) (s : Stripper) (mode : WriteMode) (d : Directory) (jobs : List Job)
    (b : BatchProgress) : Prop where
  /-- The report lists for each file, in the order given, what a run comes to alone. -/
  entries : b.report.entries = jobs.map (Job.entry disk s mode d)
  /-- The directory is the same as if the files had been processed in the order given. -/
  directory : b.directory = (runOn disk s mode (numbered jobs) d).directory
  /-- A file that a run that writes modifies is replaced with the text it comes to. -/
  find?_modified : mode = .write → ∀ j ∈ jobs, (j.entry disk s mode d).fate = .modified →
    ∃ loc file source text count, d.locate false j.path = .ok (.existing loc) ∧
      d.find? loc = some (.file file) ∧ Text.decode file.content = some source ∧
      s.strip source j.path.sourceName j.trees = .ok (.modified text count) ∧
      b.directory.find? loc = some (.file ⟨Text.encode text, file.mode, true⟩)
  /-- No other entry changes. -/
  find?_eq : ∀ loc, (mode = .write → ∀ j ∈ jobs, (j.entry disk s mode d).fate = .modified →
    d.locate false j.path ≠ .ok (.existing loc)) → b.directory.find? loc = d.find? loc
  /-- The parts of the report make up its entries. -/
  parted : b.report.Parted
  bytesRemoved : b.report.bytesRemoved = (b.report.modified.map (·.bytesRemoved)).sum
  /-- There is one warning for each failure. -/
  warnings : (b.events.filter (·.level = .warn)).Perm
    (b.report.failures.map fun f => .failed f.1 f.2.message)

theorem mem_jobs (hschedule : schedule.Perm (numbered jobs)) {x : Nat × Job} (hx : x ∈ schedule) :
    x.2 ∈ jobs := by
  rw [← numbered_map_snd jobs]
  exact List.mem_map_of_mem (hschedule.subset hx)

section

variable (hdisk : disk.Lawful) (hsteady : disk.Steady) (hlinks : ∀ j ∈ jobs, j.NamesNoLink d)
  (hdistinct : jobs.Pairwise (Job.Independent d)) (hschedule : schedule.Perm (numbered jobs))

include hdistinct hschedule in
theorem pairwise_schedule : schedule.Pairwise fun x y => Job.Independent d x.2 y.2 := by
  rw [← numbered_map_snd jobs, List.pairwise_map] at hdistinct
  exact hschedule.symm.pairwise hdistinct Job.Independent.symm

include hdisk hsteady hlinks hdistinct hschedule

/-- **What a batch comes to**, file by file. -/
theorem run_eq : runOn disk s mode schedule d =
    ⟨schedule.map fun x => (x.1, x.2.entry disk s mode d),
      d.reviseAll (versions disk s mode d schedule),
      schedule.flatMap fun x => x.2.events disk s mode d⟩ := by
  rw [runOn, foldl_step hdisk hsteady (fun x hx => hlinks _ (mem_jobs hschedule hx))
    (pairwise_schedule hdistinct hschedule) (.refl d) fun _ _ => rfl]
  rfl

/-- The new versions that a schedule makes are of different files. -/
theorem pairwise_versions : (versions disk s mode d schedule).Pairwise fun v w => v.1 ≠ w.1 := by
  rw [versions, List.pairwise_filterMap]
  refine (pairwise_schedule hdistinct hschedule).imp_of_mem fun hx hy h v hv w hw => ?_
  exact h.version_ne hdisk hsteady (hlinks _ (mem_jobs hschedule hx))
    (hlinks _ (mem_jobs hschedule hy)) hv hw

/-- A file that a run that writes modifies has a new version, with the text it comes to. -/
theorem find?_run_of_modified (hwrite : mode = .write) (hj : j ∈ jobs)
    (hmodified : (j.entry disk s mode d).fate = .modified) :
    ∃ loc file source text count, d.locate false j.path = .ok (.existing loc) ∧
      d.find? loc = some (.file file) ∧ Text.decode file.content = some source ∧
      s.strip source j.path.sourceName j.trees = .ok (.modified text count) ∧
      (runOn disk s mode schedule d).directory.find? loc =
        some (.file ⟨Text.encode text, file.mode, true⟩) := by
  rcases Job.alone_cases hdisk hsteady s mode (hlinks j hj) with
    ⟨loc, file, text, count, -, h, hnames, hversion, -⟩ | ⟨hnot, -⟩
  · obtain ⟨source, hdecode, hstrip⟩ := h.strip
    refine ⟨loc, file, source, text, count, hnames.locate_false, hnames.find?_target, hdecode,
      hstrip, ?_⟩
    rw [run_eq hdisk hsteady hlinks hdistinct hschedule]
    refine find?_reviseAll_of_mem (pairwise_versions hdisk hsteady hlinks hdistinct hschedule) ?_
      hnames.find?_target
    rw [← numbered_map_snd jobs] at hj
    obtain ⟨x, hx, rfl⟩ := List.mem_map.mp hj
    exact List.mem_filterMap.mpr ⟨x, hschedule.symm.subset hx, hversion⟩
  · rcases hnot with hcheck | hnot
    · rw [hwrite] at hcheck
      cases hcheck
    · rw [Job.entry, BatchEntry.fate] at hmodified
      split at hmodified
      · cases hnot _ ‹_›
      · cases hmodified
      · cases hmodified

/-- An entry that no modified file of a run that writes is at stays as it is. -/
theorem find?_run_of_ne {loc : Location}
    (hne : mode = .write → ∀ j ∈ jobs, (j.entry disk s mode d).fate = .modified →
      d.locate false j.path ≠ .ok (.existing loc)) :
    (runOn disk s mode schedule d).directory.find? loc = d.find? loc := by
  rw [run_eq hdisk hsteady hlinks hdistinct hschedule]
  refine find?_reviseAll_of_notMem fun v hv heq => ?_
  obtain ⟨x, hx, hv⟩ := List.mem_filterMap.mp hv
  have hj := mem_jobs hschedule hx
  obtain ⟨hwrite, hmodified, file, hnames⟩ := Job.of_version hdisk hsteady (hlinks _ hj) hv
  exact hne hwrite _ hj hmodified (heq ▸ hnames.locate_false)

/-- The order in which the files are processed makes no difference to the directory. -/
theorem directory_run : (runOn disk s mode schedule d).directory =
    (runOn disk s mode (numbered jobs) d).directory := by
  rw [run_eq hdisk hsteady hlinks hdistinct hschedule,
    run_eq hdisk hsteady hlinks hdistinct (.refl _)]
  exact reviseAll_perm (pairwise_versions hdisk hsteady hlinks hdistinct hschedule)
    (hschedule.filterMap _) d

/-- The warnings of a batch are those of its failures. -/
theorem warnings_run : ((runOn disk s mode schedule d).events.filter (·.level = .warn)).Perm
    (jobs.flatMap fun j => failureEvents j.path (j.alone disk s mode d).result) := by
  rw [run_eq hdisk hsteady hlinks hdistinct hschedule, List.filter_flatMap]
  simp only [filter_events]
  have hjobs := congrArg (List.flatMap fun j => failureEvents j.path (j.alone disk s mode d).result)
    (numbered_map_snd jobs)
  rw [List.flatMap_map] at hjobs
  exact (hschedule.flatMap_right _).trans (.of_eq hjobs)

end

/-- **A batch does to each file what a run does alone**, whatever the order in which the files are
processed, if no path names a link and no two paths name one file; and if it is up to the file alone
where the disk fails. -/
theorem isolated_run (disk : Disk) (hdisk : disk.Lawful) (hsteady : disk.Steady) (s : Stripper)
    (mode : WriteMode) (d : Directory) (hlinks : ∀ j ∈ jobs, j.NamesNoLink d)
    (hdistinct : jobs.Pairwise (Job.Independent d)) (hschedule : schedule.Perm (numbered jobs)) :
    Isolated disk s mode d jobs (runOn disk s mode schedule d) := by
  have hentries : (runOn disk s mode schedule d).report.entries =
      jobs.map (Job.entry disk s mode d) := by
    refine report_entries hschedule ?_
    rw [run_eq hdisk hsteady hlinks hdistinct hschedule]
  refine ⟨hentries, directory_run hdisk hsteady hlinks hdistinct hschedule, ?_, ?_,
    BatchReport.parted _, BatchReport.bytesRemoved_eq_sum _, ?_⟩
  · intro hwrite j hj
    exact find?_run_of_modified hdisk hsteady hlinks hdistinct hschedule hwrite hj
  · exact fun loc hne => find?_run_of_ne hdisk hsteady hlinks hdistinct hschedule hne
  · rw [failures_map, hentries, List.flatMap_map]
    exact warnings_run hdisk hsteady hlinks hdistinct hschedule

end Batch

end Delog

/-! ## A batch at hand -/

namespace Delog.Sample

/-- A directory in which the path names the file itself. -/
def folder : Directory := ⟨[([path], .file file)]⟩

/-- The file, and one of no dialect. -/
def jobs : List Job := [⟨path, trees⟩, ⟨Text.encode "b.txt".toList, trees⟩]

/-- The second file is processed first. -/
def schedule : List (Nat × Job) := (Batch.numbered jobs).reverse

theorem folder_strips : Strips (.new .default) path trees folder file text 2 where
  dialect := by decide
  read := by decide
  strip := ⟨source, decode_eq, strip_eq⟩

theorem folder_names : folder.Names path [path] [path] file where
  locate_false := by decide
  locate_true := by decide
  find?_target := by decide

/-- What the batch comes to. -/
def batch : BatchProgress := Batch.run (.new .default) .write schedule folder

/-- The batch at hand lists the file as modified, and then the other one as failed; the file is
replaced, and there is one warning. -/
theorem sample_isolated_run :
    batch.report.entries.map (·.fate) = [.modified, .failed] ∧
      batch.directory.find? [path] = some (.file stripped) ∧
      (batch.events.filter (·.level = .warn)).length = 1 := by
  have hlinks : ∀ j ∈ jobs, j.NamesNoLink folder :=
    fun _ _ loc t _ => Directory.find?_ne_link (by simp [folder]) loc t
  have hdistinct : jobs.Pairwise (Job.Independent folder) := by
    refine List.pairwise_pair.mpr fun loc f _ _ hother => ?_
    have hvacant : folder.locate true (Text.encode "b.txt".toList) =
        .ok (.vacant [] (Text.encode "b.txt".toList)) := by decide
    rw [hvacant] at hother
    cases hother
  have hb : Batch.Isolated .plain _ .write folder jobs batch :=
    Batch.isolated_run .plain Disk.lawful_plain Disk.steady_plain (.new .default) .write folder
      hlinks hdistinct (List.reverse_perm (Batch.numbered jobs))
  have halone : Job.alone .plain (.new .default) .write folder ⟨path, trees⟩ = _ :=
    folder_strips.write_nothing_eq Disk.lawful_plain unfailing folder_names
  have hmodified : (Job.entry .plain (.new .default) .write folder ⟨path, trees⟩).fate =
      .modified := by
    rw [Job.entry, halone]
    rfl
  have hentries : batch.report.entries = [_, _] := hb.entries
  refine ⟨?_, ?_, ?_⟩
  · rw [hentries, List.map_cons, hmodified]
    rfl
  · obtain ⟨loc, file', source', text', count, hlocate, hfile, hdecode, hstrip, hnew⟩ :=
      hb.find?_modified rfl ⟨path, trees⟩ List.mem_cons_self hmodified
    cases folder_names.locate_false.symm.trans hlocate
    cases folder_names.find?_target.symm.trans hfile
    cases decode_eq.symm.trans hdecode
    cases strip_eq.symm.trans hstrip
    exact hnew
  · rw [hb.warnings.length_eq, Batch.failures_map, hentries, Job.entry, halone]
    rfl

end Delog.Sample

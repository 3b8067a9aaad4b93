import Delog.Proofs.File.Batch
import Delog.Proofs.Strip.Shrink
import Delog.Proofs.Text.Decode
import Mathlib.Algebra.Ring.Int.Defs
import Mathlib.Data.List.Induction

/-!
# Proofs/File/Account — the bytes that outcomes and reports tell of

An outcome tells of the bytes before and after, and of those removed, which are none if the file has
grown.  So the three go together as long as files shrink, and the bytes that a report tells of are
the balance of the batch.

* `lt_of_modified` — a file whose source shrinks is told of as smaller
* `Batch.exists_step_of_mem_entries` — each entry is what a step comes to
* `bytes_accounted` — the bytes of sources, outcomes and reports
* `Sample.collapsing_outgrows_removal` — a source that grows
-/

namespace Delog

open Directory Text

variable {κ : Type} [DecidableEq κ] {disk : Disk} {fingerprint : Fingerprint κ} {s : Stripper}
  {mode : WriteMode} {p : Path} {trees : Trees} {d : Directory} {meanwhile : Interference}

/-! ## The bytes of an outcome -/

/-- **By how many bytes a file gets smaller**; the number is negative if it gets larger. -/
def FileOutcome.balance : FileOutcome → Int
  | modified _ _ before after => before - after
  | unchanged _ => 0

/-- Outcomes that are in balance are so altogether. -/
theorem FileOutcome.sum_bytesRemoved {os : List FileOutcome}
    (h : ∀ o ∈ os, (o.bytesRemoved : Int) = o.balance) :
    (((os.map bytesRemoved).sum : Nat) : Int) = (os.map balance).sum := by
  induction os with
  | nil => rfl
  | cons o os ih =>
    obtain ⟨ho, hos⟩ := List.forall_mem_cons.mp h
    rw [List.map_cons, List.map_cons, List.sum_cons, List.sum_cons, Int.natCast_add, ho, ih hos]

/-- **An outcome with statements removed** is that of a file with logging statements. -/
theorem exists_strips_of_modified {q : Path} {n before after : Nat}
    (h : (processFileBy disk fingerprint s mode p trees meanwhile d).result =
      .ok (.modified q n before after)) :
    ∃ file text, Strips s p trees d file text n ∧ before = file.content.length ∧
      after = size text := by
  rcases processFileBy_cases s p trees d with ⟨file, text, count, hstrips⟩ | ⟨_, _, hleft, -, heq⟩
  · have hresult : strippedOutcome p file text count = .modified q n before after := by
      cases mode with
      | check =>
        rw [hstrips.check_eq] at h
        exact Except.ok.inj h
      | write =>
        rw [hstrips.write_eq] at h
        split at h
        · cases h
        · exact Except.ok.inj h
    obtain ⟨-, rfl, rfl, rfl⟩ := FileOutcome.modified.inj hresult
    exact ⟨file, text, hstrips, rfl, rfl⟩
  · rw [heq disk κ fingerprint mode meanwhile d rfl] at h
    cases hleft _ h

/-- **A file whose source shrinks** is told of as smaller. -/
theorem lt_of_modified
    (hshrinks : ∀ file source, d.read p = .ok file → decode file.content = some source →
      s.Shrinks source trees.source) {q : Path} {n before after : Nat}
    (h : (processFileBy disk fingerprint s mode p trees meanwhile d).result =
      .ok (.modified q n before after)) : after < before := by
  obtain ⟨file, text, hstrips, rfl, rfl⟩ := exists_strips_of_modified h
  obtain ⟨source, hdecode, hstrip⟩ := hstrips.strip
  rw [← size_of_decode hdecode]
  exact (hshrinks file source hstrips.read hdecode).size_lt hstrip

/-! ## The bytes of a report -/

namespace Batch

variable {schedule : List (Nat × Job)}

/-- **Every source of a batch shrinks** as it is read when its turn comes. -/
def AllShrink (disk : Disk) (s : Stripper) (mode : WriteMode) (schedule : List (Nat × Job))
    (d : Directory) : Prop :=
  ∀ before x after, schedule = before ++ x :: after →
    ∀ file source, (runOn disk s mode before d).directory.read x.2.path = .ok file →
      decode file.content = some source → s.Shrinks source x.2.trees.source

/-- **Sources of independent files that shrink at first** shrink when their turn comes. -/
theorem allShrink_of_independent (hdisk : disk.Lawful) (hsteady : disk.Steady)
    (hlinks : ∀ x ∈ schedule, x.2.NamesNoLink d)
    (hdistinct : schedule.Pairwise fun x y => Job.Independent d x.2 y.2)
    (h : ∀ x ∈ schedule, ∀ file source, d.read x.2.path = .ok file →
      decode file.content = some source → s.Shrinks source x.2.trees.source) :
    AllShrink disk s mode schedule d := by
  rintro before x after rfl file source hread hdecode
  refine h x (by simp) file source ?_ hdecode
  obtain ⟨hbefore, -, hapart⟩ := List.pairwise_append.mp hdistinct
  have hlinks' : ∀ y ∈ before, y.2.NamesNoLink d :=
    fun y hy => hlinks y (List.mem_append_left _ hy)
  have hrun : (runOn disk s mode before d).directory =
      d.reviseAll (versions disk s mode d before) := by
    rw [runOn, foldl_step hdisk hsteady hlinks' hbefore (.refl d) fun _ _ => rfl]
  rw [← hread, hrun]
  refine (read_reviseAll fun v hv => ?_).symm
  obtain ⟨y, hy, hversion⟩ := List.mem_filterMap.mp hv
  exact (hapart y hy x List.mem_cons_self).locate_ne hdisk hsteady (hlinks' y hy) hversion

theorem runOn_concat (disk : Disk) (s : Stripper) (mode : WriteMode) (schedule : List (Nat × Job))
    (x : Nat × Job) (d : Directory) :
    runOn disk s mode (schedule ++ [x]) d = step disk s mode (runOn disk s mode schedule d) x := by
  rw [runOn, List.foldl_append]
  rfl

/-- **Each entry of a batch is what a step comes to**, in the directory that the steps before it
leave. -/
theorem exists_step_of_mem_entries {x : Nat × BatchEntry}
    (hx : x ∈ (runOn disk s mode schedule d).entries) :
    ∃ before y after, schedule = before ++ y :: after ∧
      x.2.result = (y.2.alone disk s mode (runOn disk s mode before d).directory).result := by
  induction schedule using List.reverseRecOn with
  | nil => cases hx
  | append_singleton before y ih =>
    rw [runOn_concat, step, List.mem_append, List.mem_singleton] at hx
    rcases hx with hx | rfl
    · obtain ⟨first, z, after, rfl, hresult⟩ := ih hx
      exact ⟨first, z, after ++ [y], by simp, hresult⟩
    · exact ⟨before, y, [], rfl, rfl⟩

/-- A modified outcome of a report is that of an entry. -/
theorem exists_of_mem_modified {b : BatchProgress} {o : FileOutcome} (ho : o ∈ b.report.modified) :
    ∃ x ∈ b.entries, x.2.result = .ok o ∧ o.isModified = true := by
  obtain ⟨ho, hmodified⟩ := List.mem_filter.mp ho
  obtain ⟨e, he, hresult⟩ := List.mem_filterMap.mp ho
  obtain ⟨x, hx, rfl⟩ := List.mem_map.mp he
  refine ⟨x, (List.mergeSort_perm _ _).mem_iff.mp hx, ?_, hmodified⟩
  cases hcase : x.2.result with
  | error _ =>
    rw [hcase] at hresult
    cases hresult
  | ok o' =>
    rw [hcase] at hresult
    exact congrArg Except.ok (Option.some.inj hresult)

/-- **The bytes that a report tells of** are the balance of the batch, if all its sources shrink. -/
theorem bytesRemoved_runOn (h : AllShrink disk s mode schedule d) :
    ((runOn disk s mode schedule d).report.bytesRemoved : Int) =
      ((runOn disk s mode schedule d).report.modified.map FileOutcome.balance).sum := by
  rw [BatchReport.bytesRemoved_eq_sum]
  refine FileOutcome.sum_bytesRemoved fun o ho => ?_
  obtain ⟨x, hx, hresult, hmodified⟩ := exists_of_mem_modified ho
  cases o with
  | unchanged q => cases hmodified
  | modified q n before after =>
    obtain ⟨first, y, rest, hschedule, hstep⟩ := exists_step_of_mem_entries hx
    have hlt : after < before := lt_of_modified (h first y rest hschedule) (hstep ▸ hresult)
    exact Int.ofNat_sub (Nat.le_of_lt hlt)

end Batch

/-- **Bytes are accounted for.**  In a sound tree a source without its logging statements is longer
by no more than tidying stretches it, less what removing them saves; so it is shorter if the first
is less than the second.  That is so whenever the first line break of the source is a bare newline,
or there is none, or all line breaks are `\r\n`.  For a file whose source shrinks, the bytes removed
and those after are the bytes before, whatever the run does, whoever else is at work and on whatever
disk; and if all sources of a batch do, the bytes that the report tells of are what the modified
files have lost. -/
theorem bytes_accounted (s : Stripper) :
    (∀ source name trees text count, trees.source.SoundlyLogs source s.options.loggingObject →
      s.strip source name trees = .ok (.modified text count) →
        size text + s.saves source trees.source ≤ size source + s.stretches source trees.source ∧
        (s.Shrinks source trees.source → size text < size source)) ∧
    (∀ source root, root.SoundlyLogs source s.options.loggingObject →
      LineEnding.detect source = .lf ∨ KeepsToCrlf source → s.Shrinks source root) ∧
    (∀ (κ : Type) [DecidableEq κ] (disk : Disk) (fingerprint : Fingerprint κ) mode p trees meanwhile
      d, (∀ file source, d.read p = .ok file → decode file.content = some source →
        s.Shrinks source trees.source) →
      ∀ q n before after, (processFileBy disk fingerprint s mode p trees meanwhile d).result =
          .ok (.modified q n before after) →
        after < before ∧ (FileOutcome.modified q n before after).bytesRemoved + after = before) ∧
    ∀ disk mode schedule d, Batch.AllShrink disk s mode schedule d →
      ((Batch.runOn disk s mode schedule d).report.bytesRemoved : Int) =
        ((Batch.runOn disk s mode schedule d).report.modified.map FileOutcome.balance).sum := by
  refine ⟨fun source name trees text count hsound hstrip => ?_, fun source root =>
    Stripper.shrinks_of_convention, fun κ _ disk fingerprint mode p trees meanwhile d h q n before
    after hresult => ?_, fun disk mode schedule d => Batch.bytesRemoved_runOn⟩
  · exact ⟨Stripper.size_strip_le hsound hstrip, fun hshrinks => hshrinks.size_lt hstrip⟩
  · have hlt := lt_of_modified h hresult
    exact ⟨hlt, Nat.sub_add_cancel (Nat.le_of_lt hlt)⟩

end Delog

/-! ## Sources at hand -/

namespace Delog.Sample

open Text

/-- The lines `if (a)` and `statement`, and then each of the letters after the line breaks given. -/
def spaced (statement breaks letters : String) : Text :=
  "if (a)\r\n".toList ++ statement.toList ++ letters.toList.flatMap fun c => breaks.toList ++ [c]

/-- A source whose first line break is `\r\n`, with runs of three newlines after it. -/
def ragged (letters : String) : Text := spaced "c.l()" "\n\n\n" letters

/-- What the source is stripped to: one `;` in place of five bytes, and for each letter two line
breaks of four bytes in place of three newlines. -/
def raggedResult (letters : String) : Text := spaced ";" "\r\n\r\n" letters

/-- The tree of the source. -/
def raggedRoot (letters : String) : Node :=
  node "program" 0 (13 + 4 * letters.length) none
    (node "if_statement" 0 13 none
      [node "parenthesized_expression" 3 6 (some "condition") [],
        node "expression_statement" 8 13 (some "consequence")
          [node "call_expression" 8 13 none
            [node "member_expression" 8 11 (some "function")
              [node "identifier" 8 9 (some "object") [],
                node "property_identifier" 10 11 (some "property") []],
              node "arguments" 11 13 (some "arguments") []]]] ::
      (List.range letters.length).map fun k =>
        node "expression_statement" (16 + 4 * k) (17 + 4 * k) none [])

/-- What is computed of the source: the one range, what is left without it, and that tidied. -/
structure IsRagged (letters : String) : Prop where
  wellFormed : (raggedRoot letters).WellFormed (ragged letters)
  firstFault : (raggedRoot letters).firstFault (ragged letters) = none
  removals : (raggedRoot letters).removals (ragged letters) "c" = [⟨8, 13, true⟩]
  runAll : Removal.runAll (ragged letters) [⟨8, 13, true⟩] = .ok (spaced ";" "\n\n\n" letters)
  tidy : Removal.tidy (ragged letters) (spaced ";" "\n\n\n" letters) = raggedResult letters
  soundlyLogs : (raggedRoot letters).SoundlyLogs (ragged letters) "c"
  decode : decode (encode (ragged letters)) = some (ragged letters)

theorem isRagged_b : IsRagged "b" :=
  ⟨by decide, by decide, by decide, by decide, by decide,
    ⟨by decide, by decide, by decide, by decide, by decide⟩, by decide⟩

theorem isRagged_bde : IsRagged "bde" :=
  ⟨by decide, by decide, by decide, by decide, by decide,
    ⟨by decide, by decide, by decide, by decide, by decide⟩, by decide⟩

theorem isRagged_bdefg : IsRagged "bdefg" :=
  ⟨by decide, by decide, by decide, by decide, by decide,
    ⟨by decide, by decide, by decide, by decide, by decide⟩, by decide⟩

/-- A file with the source in it. -/
def raggedFile (letters : String) : RegularFile := ⟨encode (ragged letters), 0o644, false⟩

namespace IsRagged

variable {letters : String} (h : IsRagged letters)
include h

theorem strip_eq (name : String) :
    (Stripper.new ⟨"c"⟩).strip (ragged letters) name ⟨raggedRoot letters, none⟩ =
      .ok (.modified (raggedResult letters) 1) := by
  have hne : (raggedRoot letters).removals (ragged letters) "c" ≠ [] := by simp [h.removals]
  have hrun : Removal.runAll (ragged letters)
      ((raggedRoot letters).removals (ragged letters) "c").reverse =
        .ok (spaced ";" "\n\n\n" letters) := by
    rw [h.removals]
    exact h.runAll
  have hstrip := @Stripper.strip_of_runAll (.new ⟨"c"⟩) (ragged letters) name
    ⟨raggedRoot letters, none⟩ h.wellFormed h.firstFault hne _ hrun
  have hcount := congrArg List.length h.removals
  rw [hstrip, h.tidy]
  exact congrArg (fun n => Except.ok (Stripped.modified (raggedResult letters) n)) hcount

theorem strips {p : Path} {d : Directory} (hdialect : (Dialect.ofPath p).isSome = true)
    (hread : d.read p = .ok (raggedFile letters)) :
    Strips (.new ⟨"c"⟩) p ⟨raggedRoot letters, none⟩ d (raggedFile letters) (raggedResult letters)
      1 :=
  ⟨hdialect, hread, ragged letters, h.decode, h.strip_eq _⟩

theorem stretches_eq : (Stripper.new ⟨"c"⟩).stretches (ragged letters) (raggedRoot letters) =
    Removal.stretched (LineEnding.detect (ragged letters))
      (Removal.emptyBlankLines (trim (spaced ";" "\n\n\n" letters))) := by
  have hremovals : (raggedRoot letters).removals (ragged letters)
    (Stripper.new ⟨"c"⟩).options.loggingObject = _ := h.removals
  rw [Stripper.stretches, hremovals, Removal.stretch,
    Removal.sortDescending_of_pairwise (List.pairwise_singleton _ _), h.runAll]

theorem saves_eq : (Stripper.new ⟨"c"⟩).saves (ragged letters) (raggedRoot letters) = 4 := by
  have hremovals : (raggedRoot letters).removals (ragged letters)
    (Stripper.new ⟨"c"⟩).options.loggingObject = _ := h.removals
  rw [Stripper.saves, hremovals]
  rfl

theorem shrinks (hlt : (Stripper.new ⟨"c"⟩).stretches (ragged letters) (raggedRoot letters) < 4) :
    (Stripper.new ⟨"c"⟩).Shrinks (ragged letters) (raggedRoot letters) :=
  ⟨h.soundlyLogs, fun _ => h.saves_eq ▸ hlt⟩

end IsRagged

theorem stretches_b : (Stripper.new ⟨"c"⟩).stretches (ragged "b") (raggedRoot "b") = 1 := by
  rw [isRagged_b.stretches_eq]
  decide

theorem stretches_bde : (Stripper.new ⟨"c"⟩).stretches (ragged "bde") (raggedRoot "bde") = 3 := by
  rw [isRagged_bde.stretches_eq]
  decide

/-- A second path. -/
def otherPath : Path := encode "b.ts".toList

/-- A directory with two files. -/
def raggedFolder : Directory :=
  ⟨[([path], .file (raggedFile "b")), ([otherPath], .file (raggedFile "bde"))]⟩

/-- The two files. -/
def raggedJobs : List Job :=
  [⟨path, ⟨raggedRoot "b", none⟩⟩, ⟨otherPath, ⟨raggedRoot "bde", none⟩⟩]

theorem raggedFolder_strips : Strips (.new ⟨"c"⟩) path ⟨raggedRoot "b", none⟩ raggedFolder
    (raggedFile "b") (raggedResult "b") 1 :=
  isRagged_b.strips (by decide) (by decide)

theorem raggedFolder_strips_other : Strips (.new ⟨"c"⟩) otherPath ⟨raggedRoot "bde", none⟩
    raggedFolder (raggedFile "bde") (raggedResult "bde") 1 :=
  isRagged_bde.strips (by decide) (by decide)

theorem raggedJobs_namesNoLink : ∀ j ∈ raggedJobs, j.NamesNoLink raggedFolder :=
  fun _ _ loc t _ => Directory.find?_ne_link (by simp [raggedFolder]) loc t

theorem raggedJobs_independent : raggedJobs.Pairwise (Job.Independent raggedFolder) := by
  refine List.pairwise_pair.mpr fun loc _ _ hpath hother => ?_
  have hlocate : raggedFolder.locate true path = .ok (.existing [path]) := by decide
  have hlocate' : raggedFolder.locate true otherPath = .ok (.existing [otherPath]) := by decide
  cases hlocate.symm.trans hpath
  exact absurd (hlocate'.symm.trans hother) (by decide)

/-- What a batch of the two files comes to. -/
def raggedBatch : BatchProgress :=
  Batch.runOn .plain (.new ⟨"c"⟩) .write (Batch.numbered raggedJobs) raggedFolder

theorem raggedBatch_entries : raggedBatch.report.entries =
    [⟨path, .ok (.modified path 1 17 14)⟩, ⟨otherPath, .ok (.modified otherPath 1 25 24)⟩] := by
  have hrun : Batch.runOn .plain (.new ⟨"c"⟩) .write (Batch.numbered raggedJobs) raggedFolder = _ :=
    Batch.run_eq Disk.lawful_plain Disk.steady_plain raggedJobs_namesNoLink raggedJobs_independent
      (.refl _)
  have hentries : raggedBatch.report.entries = [_, _] :=
    Batch.report_entries (.refl _) (congrArg BatchProgress.entries hrun)
  have hfirst := raggedFolder_strips.result_nothing_eq Disk.lawful_plain
    (Disk.unfailing_plain (by decide)) (id : Fingerprint Bytes) .write
  have hsecond := raggedFolder_strips_other.result_nothing_eq Disk.lawful_plain
    (Disk.unfailing_plain (by decide)) (id : Fingerprint Bytes) .write
  rw [hentries, Job.entry, Job.entry, Job.alone, Job.alone, hfirst, hsecond]
  rfl

theorem raggedBatch_allShrink :
    Batch.AllShrink .plain (.new ⟨"c"⟩) .write (Batch.numbered raggedJobs) raggedFolder := by
  refine Batch.allShrink_of_independent Disk.lawful_plain Disk.steady_plain
    (fun x hx => raggedJobs_namesNoLink _ (Batch.mem_jobs (.refl _) hx))
    (Batch.pairwise_schedule raggedJobs_independent (.refl _)) fun x hx f source hread hdecode => ?_
  rcases List.mem_pair.mp hx with rfl | rfl
  · cases raggedFolder_strips.read.symm.trans hread
    cases isRagged_b.decode.symm.trans hdecode
    exact isRagged_b.shrinks (stretches_b ▸ by decide)
  · cases raggedFolder_strips_other.read.symm.trans hread
    cases isRagged_bde.decode.symm.trans hdecode
    exact isRagged_bde.shrinks (stretches_bde ▸ by decide)

/-- The two files at hand shrink from 17 bytes to 14 and from 25 to 24, although tidying stretches
the one by a byte and the other by three; the report tells of the four bytes removed. -/
theorem sample_bytes_accounted :
    ((Stripper.new ⟨"c"⟩).stretches (ragged "b") (raggedRoot "b") = 1 ∧
      size (raggedResult "b") + 4 ≤ size (ragged "b") + 1 ∧
      size (raggedResult "b") < size (ragged "b")) ∧
    (stripFile (.new ⟨"c"⟩) path ⟨raggedRoot "b", none⟩ raggedFolder).result =
      .ok (.modified path 1 17 14) ∧
    (FileOutcome.modified path 1 17 14).bytesRemoved + 14 = 17 ∧
    (raggedBatch.report.bytesRemoved : Int) =
      (raggedBatch.report.modified.map FileOutcome.balance).sum ∧
    raggedBatch.report.bytesRemoved = 4 := by
  obtain ⟨hstrip, -, hfile, hbatch⟩ := bytes_accounted (.new ⟨"c"⟩)
  have hshrinks := isRagged_b.shrinks (stretches_b ▸ by decide)
  obtain ⟨hbalance, hlt⟩ := hstrip _ "a.ts" ⟨raggedRoot "b", none⟩ _ _ isRagged_b.soundlyLogs
    (isRagged_b.strip_eq _)
  rw [isRagged_b.saves_eq, stretches_b] at hbalance
  have hresult := raggedFolder_strips.result_nothing_eq Disk.lawful_plain
    (Disk.unfailing_plain (by decide)) (id : Fingerprint Bytes) .write
  have hcount := hfile Bytes .plain id .write path ⟨raggedRoot "b", none⟩ .nothing raggedFolder
    (fun f source hread hdecode => by
      cases raggedFolder_strips.read.symm.trans hread
      cases isRagged_b.decode.symm.trans hdecode
      exact hshrinks) _ _ _ _ hresult
  have htotal := hbatch .plain .write _ raggedFolder raggedBatch_allShrink
  refine ⟨⟨stretches_b, hbalance, hlt hshrinks⟩, hresult, hcount.2, htotal, ?_⟩
  rw [BatchReport.bytesRemoved, BatchReport.modified, BatchReport.outcomes, raggedBatch_entries]
  rfl

/-- A directory with a source in it that grows. -/
def raggedDirectory : Directory := ⟨[([path], .file (raggedFile "bdefg"))]⟩

/-- **The line breaks written may be longer than what was removed.**  The tree of the source at hand
is well-formed and has no faults, and its only logging statement spans five bytes.  Without it the
source is longer by one byte, and the outcome for a file tells of no bytes removed. -/
theorem collapsing_outgrows_removal :
    (raggedRoot "bdefg").WellFormed (ragged "bdefg") ∧ (raggedRoot "bdefg").faulty = [] ∧
      (∀ n ∈ (raggedRoot "bdefg").loggingStatements (ragged "bdefg") "c",
        n.span.start + 5 ≤ n.span.stop) ∧
      (Stripper.new ⟨"c"⟩).strip (ragged "bdefg") "a.ts" ⟨raggedRoot "bdefg", none⟩ =
        .ok (.modified (raggedResult "bdefg") 1) ∧
      ¬ size (raggedResult "bdefg") < size (ragged "bdefg") ∧
      (stripFile (.new ⟨"c"⟩) path ⟨raggedRoot "bdefg", none⟩ raggedDirectory).result =
        .ok (.modified path 1 33 34) ∧
      (FileOutcome.modified path 1 33 34).bytesRemoved + 34 ≠ 33 := by
  have hstrips : Strips (.new ⟨"c"⟩) path ⟨raggedRoot "bdefg", none⟩ raggedDirectory
      (raggedFile "bdefg") (raggedResult "bdefg") 1 := isRagged_bdefg.strips (by decide) (by decide)
  have hresult := hstrips.result_nothing_eq Disk.lawful_plain (Disk.unfailing_plain (by decide))
    (id : Fingerprint Bytes) .write
  exact ⟨isRagged_bdefg.wellFormed, by rfl, by decide, isRagged_bdefg.strip_eq _, by decide,
    hresult, by decide⟩

end Delog.Sample

import Delog.Proofs.File.Outcome

/-!
# Proofs/File/Interference — no update by somebody else is lost

Between the removal of the statements and the writing of the file somebody else may act on it.  If
the file is not known again, or is gone, it is left as it was found; if it holds what it held
before, it is written as if nothing had happened.  It is known again by its fingerprint, so that
contents with one fingerprint cannot be told apart.

* `cameToRemoval_iff` — a run comes to the removal just when there are statements to remove
* `no_lost_update` — what a run does after somebody else has acted
-/

namespace Delog

open Directory

variable {κ : Type} [DecidableEq κ] {disk : Disk} {fingerprint : Fingerprint κ} {s : Stripper}
  {p : Path} {trees : Trees} {d : Directory} {file : RegularFile} {text : Text} {count : Nat}

/-- **A run comes to the removal** of statements: it tells of it, and somebody else may act then. -/
def Processed.CameToRemoval (run : Processed) : Prop :=
  ∃ name count bytes, Event.removed name count bytes ∈ run.events

namespace Strips

variable (h : Strips s p trees d file text count)
include h

/-- Whatever somebody else does, a run comes to the removal of the statements of such a file. -/
theorem cameToRemoval (disk : Disk) (fingerprint : Fingerprint κ) (mode : WriteMode)
    (meanwhile : Interference) :
    (processFileBy disk fingerprint s mode p trees meanwhile d).CameToRemoval := by
  refine ⟨p.sourceName, count, file.content.length - text.size, ?_⟩
  cases mode with
  | check =>
    rw [h.check_eq]
    exact List.mem_cons_self
  | write =>
    rw [h.write_eq]
    split <;> exact List.mem_cons_self

/-- **A file overwritten with other contents** is left as it was found. -/
theorem write_overwrite_eq {content : Bytes}
    (hne : fingerprint content ≠ fingerprint file.content) :
    processFileBy disk fingerprint s .write p trees (.overwrite content) d =
        ⟨.error (.changed p), d.write p content none, [removedEvent p file text count]⟩ ∧
      (d.write p content none).read p = .ok ⟨content, file.mode, true⟩ := by
  obtain ⟨loc, target, hnames⟩ := exists_names h.read
  have hread := (hnames.of_write content).read_eq
  refine ⟨?_, hread⟩
  rw [h.write_eq, Interference.act, replaceIfSame_of_ne hread hne]

/-- **A file that was removed** is not made again. -/
theorem write_removal_eq (disk : Disk) (fingerprint : Fingerprint κ) :
    processFileBy disk fingerprint s .write p trees .removal d =
        ⟨.error (.io p .notFound), d.remove p, [removedEvent p file text count]⟩ ∧
      ∃ parent n, d.locate false p = .ok (.existing (parent ++ [n])) ∧
        (d.remove p).find? (parent ++ [n]) = none ∧
        ∀ follow, (d.remove p).locate follow p = .ok (.vacant parent n) := by
  obtain ⟨loc, target, hnames⟩ := exists_names h.read
  obtain ⟨hnone, ⟨parent, n, rfl, hvacant⟩, hread⟩ := hnames.of_remove
  refine ⟨?_, parent, n, hnames.locate_false, hnone, hvacant⟩
  rw [h.write_eq, Interference.act, replaceIfSame_of_error hread]

/-- **A file overwritten with what it holds** is written as if nothing had happened, if the disk
does not fail. -/
theorem write_overwrite_same (hdisk : disk.Lawful) (hp : disk.Unfailing p) :
    let run := processFileBy disk fingerprint s .write p trees (.overwrite file.content) d
    let alone := processFileBy disk fingerprint s .write p trees .nothing d
    run.result = alone.result ∧ run.events = alone.events ∧
      run.directory.settle = alone.directory.settle := by
  obtain ⟨loc, target, hnames⟩ := exists_names h.read
  have hcases := h.write_cases hdisk fingerprint (.overwrite file.content)
    (hnames.of_write file.content) rfl
  have hrun := hcases.resolve_right fun hnot => hnot.1 hp
  intro run alone
  rw [show run = _ from hrun, show alone = _ from h.write_nothing_eq hdisk hp hnames]
  refine ⟨rfl, rfl, ?_⟩
  rw [settle_put, settle_put, Interference.act, hnames.settle_write]

end Strips

/-- **A run comes to the removal just when there are logging statements to remove**, whatever
somebody else does then. -/
theorem cameToRemoval_iff (disk : Disk) (fingerprint : Fingerprint κ) (mode : WriteMode)
    (meanwhile : Interference) :
    (processFileBy disk fingerprint s mode p trees meanwhile d).CameToRemoval ↔
      ∃ file text count, Strips s p trees d file text count := by
  constructor
  · rintro ⟨name, count, bytes, hmem⟩
    rcases processFileBy_cases s p trees d with h | ⟨result, events, -, hev, heq⟩
    · exact h
    · rw [heq disk κ fingerprint mode meanwhile d rfl] at hmem
      obtain ⟨name', hname⟩ := hev _ hmem
      cases hname
  · rintro ⟨file, text, count, h⟩
    exact h.cameToRemoval disk fingerprint mode meanwhile

/-- **No update by somebody else is lost**, on whatever disk.  A run comes to the removal of
statements just when the file has some.  If it writes, it refuses a file that was overwritten with
contents of another fingerprint, and leaves these; it does not make a file again that was removed;
and overwriting the file with what it holds makes no difference but for the marks of what was
written, if the disk does not fail by itself.  If the run only checks, what somebody else does is
all that changes, and so nothing does if it does not come to the removal. -/
theorem no_lost_update (disk : Disk) (fingerprint : Fingerprint κ) (s : Stripper)
    (mode : WriteMode) (p : Path) (trees : Trees) (meanwhile : Interference) (d : Directory) :
    let run := processFileBy disk fingerprint s mode p trees meanwhile d
    let alone := processFileBy disk fingerprint s mode p trees .nothing d
    (run.CameToRemoval ↔ ∃ file text count, Strips s p trees d file text count) ∧
    (mode = .write → run.CameToRemoval → ∀ file, d.read p = .ok file →
      (∀ content, meanwhile = .overwrite content → fingerprint content ≠ fingerprint file.content →
        run.result = .error (.changed p) ∧ run.directory = meanwhile.act d p ∧
          run.directory.read p = .ok ⟨content, file.mode, true⟩) ∧
      (meanwhile = .removal →
        run.result = .error (.io p .notFound) ∧ run.directory = meanwhile.act d p ∧
          ∃ parent n, d.locate false p = .ok (.existing (parent ++ [n])) ∧
            run.directory.find? (parent ++ [n]) = none ∧
            ∀ follow, run.directory.locate follow p = .ok (.vacant parent n)) ∧
      (meanwhile = .overwrite file.content → disk.Lawful → disk.Unfailing p →
        run.result = alone.result ∧ run.events = alone.events ∧
          run.directory.settle = alone.directory.settle)) ∧
    (mode = .check → run.CameToRemoval →
      run.result = alone.result ∧ run.directory = meanwhile.act d p) ∧
    (¬ run.CameToRemoval → run.directory = d) := by
  intro run alone
  have hcame : run.CameToRemoval ↔ _ := cameToRemoval_iff disk fingerprint mode meanwhile
  by_cases hremoval : run.CameToRemoval
  · obtain ⟨file, text, count, h⟩ := hcame.mp hremoval
    refine ⟨hcame, ?_, ?_, fun hnot => absurd hremoval hnot⟩
    · rintro rfl - file' hread
      obtain rfl : file = file' := Except.ok.inj (h.read.symm.trans hread)
      refine ⟨?_, ?_, ?_⟩
      · rintro content rfl hne
        obtain ⟨hrun, hkept⟩ := h.write_overwrite_eq hne
        rw [show run = _ from hrun]
        exact ⟨rfl, rfl, hkept⟩
      · rintro rfl
        obtain ⟨hrun, hgone⟩ := h.write_removal_eq disk fingerprint
        rw [show run = _ from hrun]
        exact ⟨rfl, rfl, hgone⟩
      · rintro rfl hdisk hp
        exact h.write_overwrite_same hdisk hp
    · rintro rfl -
      rw [show run = _ from h.check_eq, show alone = _ from h.check_eq]
      exact ⟨rfl, rfl⟩
  · refine ⟨hcame, fun _ h => absurd h hremoval, fun _ h => absurd h hremoval, fun _ => ?_⟩
    rcases processFileBy_cases s p trees d with h | ⟨result, events, -, -, heq⟩
    · exact absurd (hcame.mpr h) hremoval
    · rw [show run = _ from heq disk κ fingerprint mode meanwhile d rfl]

end Delog

/-! ## Somebody else at the directory at hand -/

namespace Delog.Sample

/-- What processing the file at hand comes to. -/
def run (mode : WriteMode) (meanwhile : Interference) : Processed :=
  processFileBy .plain digest (.new .default) mode path trees meanwhile directory

/-- In the directory at hand the file at the end of the link is emptied, the link removed, or the
file overwritten with what it holds. -/
theorem sample_no_lost_update :
    ((run .write (.overwrite [])).result = .error (.changed path) ∧
      (run .write (.overwrite [])).directory.read path = .ok ⟨[], 0o600, true⟩) ∧
    ((run .write .removal).result = .error (.io path .notFound) ∧
      (run .write .removal).directory = Interference.removal.act directory path) ∧
    (run .write (.overwrite file.content)).directory.settle =
      (run .write .nothing).directory.settle ∧
    (run .check .removal).directory = Interference.removal.act directory path := by
  have hread := strips.read
  have hcame := strips.cameToRemoval .plain digest
  have hne : digest [] ≠ digest file.content := by decide
  have hlaw := no_lost_update .plain digest (.new .default)
  obtain ⟨hchanged, -, hkept⟩ :=
    ((hlaw .write _ _ _ _).2.1 rfl (hcame .write (.overwrite [])) _ hread).1 [] rfl hne
  obtain ⟨hgone, hremoved, -⟩ :=
    ((hlaw .write _ _ _ _).2.1 rfl (hcame .write .removal) _ hread).2.1 rfl
  obtain ⟨-, -, hsettle⟩ :=
    ((hlaw .write _ _ _ _).2.1 rfl (hcame .write (.overwrite file.content)) _ hread).2.2 rfl
      Disk.lawful_plain unfailing
  obtain ⟨-, hcheck⟩ := (hlaw .check _ _ _ _).2.2.1 rfl (hcame .check .removal)
  exact ⟨⟨hchanged, hkept⟩, ⟨hgone, hremoved⟩, hsettle, hcheck⟩

end Delog.Sample

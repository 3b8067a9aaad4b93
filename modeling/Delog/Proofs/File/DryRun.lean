import Delog.Proofs.File.Outcome

/-!
# Proofs/File/DryRun — a run that only checks tells what writing comes to

A run that writes reads the file once more, replaces it by its path, and may fail at each of these
steps.  With nobody else at work, and a disk that does not fail by itself, it fails at none of them,
wherever the path leads: what could be read once can be read again, and what can be read can be
replaced.

* `checkFile_predicts_stripFile` — checking and writing come to the same
-/

namespace Delog

open Directory

variable {κ : Type} [DecidableEq κ] {disk : Disk} {fingerprint : Fingerprint κ} {s : Stripper}
  {p : Path} {trees : Trees} {d : Directory}

/-- **Checking changes nothing**, and it is all the same on which disk and by which fingerprint. -/
theorem processFileBy_check (disk : Disk) (fingerprint : Fingerprint κ) (s : Stripper) (p : Path)
    (trees : Trees) (d : Directory) :
    processFileBy disk fingerprint s .check p trees .nothing d = checkFile s p trees d ∧
      (checkFile s p trees d).directory = d := by
  rw [checkFile, processFile]
  rcases processFileBy_cases s p trees d with ⟨file, text, count, h⟩ | ⟨_, _, -, -, heq⟩
  · rw [h.check_eq, h.check_eq]
    exact ⟨rfl, rfl⟩
  · rw [heq disk κ fingerprint .check .nothing d rfl, heq .plain Bytes id .check .nothing d rfl]
    exact ⟨rfl, rfl⟩

section

variable (hdisk : disk.Lawful) (hp : disk.Unfailing p)
include hdisk hp

/-- **Checking comes to what writing comes to**, be it an outcome or an error. -/
theorem processFileBy_result (fingerprint : Fingerprint κ) (s : Stripper) (trees : Trees)
    (d : Directory) : (processFileBy disk fingerprint s .check p trees .nothing d).result =
      (processFileBy disk fingerprint s .write p trees .nothing d).result := by
  rcases processFileBy_cases s p trees d with ⟨file, text, count, h⟩ | ⟨_, _, -, -, heq⟩
  · rw [h.result_nothing_eq hdisk hp fingerprint .check,
      h.result_nothing_eq hdisk hp fingerprint .write]
  · rw [heq disk κ fingerprint .check .nothing d rfl, heq disk κ fingerprint .write .nothing d rfl]

/-- **A file that was modified holds as many bytes as the outcome tells.** -/
theorem exists_read_of_result_eq_modified {q : Path} {statements before after : Nat}
    (h : (processFileBy disk fingerprint s .write p trees .nothing d).result =
      .ok (.modified q statements before after)) :
    ∃ file, (processFileBy disk fingerprint s .write p trees .nothing d).directory.read p =
      .ok file ∧ file.content.length = after := by
  rcases processFileBy_cases s p trees d with ⟨file, text, count, hstrips⟩ | ⟨_, _, hleft, -, heq⟩
  · obtain ⟨loc, target, hnames⟩ := exists_names hstrips.read
    rw [hstrips.write_nothing_eq hdisk hp hnames] at h ⊢
    obtain ⟨-, -, -, rfl⟩ := FileOutcome.modified.inj (Except.ok.inj h)
    exact ⟨_, (hnames.rewritten _).read_new, Text.length_encode text⟩
  · rw [heq disk κ fingerprint .write .nothing d rfl] at h
    cases hleft _ h

end

/-- **A dry run tells what the run comes to.**  On every disk that does not fail by itself when it
replaces the file, and with nobody else at work: a run that checks and a run that writes come to the
same outcome, or fail with the same error, whatever the directory, the path, the stripper and the
trees; a file with logging statements to remove makes neither of them fail.  The run that checks
leaves the directory as it is, and if the one that writes has modified the file, the path leads to a
file of as many bytes as both of them tell.  The fingerprint that the runs go by does not matter. -/
theorem checkFile_predicts_stripFile (disk : Disk) (hdisk : disk.Lawful) {p : Path}
    (hp : disk.Unfailing p) (fingerprint : Fingerprint κ) (s : Stripper) (trees : Trees)
    (d : Directory) :
    let check := processFileBy disk fingerprint s .check p trees .nothing d
    let write := processFileBy disk fingerprint s .write p trees .nothing d
    check = checkFile s p trees d ∧
      (Disk.plain.Unfailing p → write = stripFile s p trees d) ∧
      check.result = write.result ∧
      (∀ file text count, Strips s p trees d file text count →
        write.result = .ok (.modified p count file.content.length (Text.encode text).length)) ∧
      check.directory = d ∧
      ∀ q statements before after, write.result = .ok (.modified q statements before after) →
        ∃ file, write.directory.read p = .ok file ∧ file.content.length = after := by
  intro check write
  obtain ⟨hcheck, hsame⟩ := processFileBy_check disk fingerprint s p trees d
  refine ⟨hcheck, fun hplain => ?_, processFileBy_result hdisk hp fingerprint s trees d,
    fun file text count h => ?_, ?_, fun _ _ _ _ => exists_read_of_result_eq_modified hdisk hp⟩
  · exact processFileBy_nothing hdisk hp Disk.lawful_plain hplain fingerprint id s .write trees d
  · rw [Text.length_encode]
    exact h.result_nothing_eq hdisk hp fingerprint .write
  · rw [show check = _ from hcheck, hsame]

/-- By the link at hand the file shrinks from 43 bytes to the 13 that the dry run tells of. -/
theorem sample_checkFile_predicts_stripFile :
    (checkFile (.new .default) Sample.path Sample.trees Sample.directory).result =
        .ok (.modified Sample.path 2 43 13) ∧
      ∃ file, (stripFile (.new .default) Sample.path Sample.trees Sample.directory).directory.read
        Sample.path = .ok file ∧ file.content.length = 13 := by
  obtain ⟨hcheck, hwrite, hresult, hstrips, -, hbytes⟩ := checkFile_predicts_stripFile .plain
    Disk.lawful_plain Sample.unfailing Sample.digest (.new .default) Sample.trees Sample.directory
  rw [hcheck, hwrite Sample.unfailing] at hresult
  rw [hwrite Sample.unfailing] at hstrips hbytes
  have hrun : (stripFile (.new .default) Sample.path Sample.trees Sample.directory).result =
      .ok (.modified Sample.path 2 43 13) := hstrips _ _ _ Sample.strips
  exact ⟨hresult.trans hrun, hbytes _ _ _ _ hrun⟩

end Delog

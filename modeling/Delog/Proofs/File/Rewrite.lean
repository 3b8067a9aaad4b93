import Delog.Proofs.File.Outcome

/-!
# Proofs/File/Rewrite — a run rewrites one file or does nothing

Whatever goes wrong, the directory is left as it was; so it is if there is nothing to remove, or if
the run only checks.  The disk may fail at any step of replacing the file, and what was done by then
is undone.  Otherwise the entry that the path names becomes the new file, and no other entry
changes: a link is replaced, and the file at the end of it stays.

* `processFileBy_rewrites` — the two things that a run can do
* `rewrites_file_or_nothing` — what a run does to a directory, with nobody else at work
-/

namespace Delog

open Directory

variable {κ : Type} [DecidableEq κ]

/-- **With nobody else at work** a run changes nothing and tells of no file being written, and then
it has modified none if it writes; or it writes, and rewrites the file that the path names. -/
theorem processFileBy_rewrites {disk : Disk} (hdisk : disk.Lawful) (fingerprint : Fingerprint κ)
    (s : Stripper) (mode : WriteMode) (p : Path) (trees : Trees) (d : Directory) :
    let run := processFileBy disk fingerprint s mode p trees .nothing d
    ((run.directory = d ∧ ∀ e ∈ run.events, e.level ≠ .info) ∧
      (mode = .write → ∀ q n before after, run.result ≠ .ok (.modified q n before after))) ∨
    mode = .write ∧ ∃ file text count loc target, Strips s p trees d file text count ∧
      d.Names p loc target file ∧ run =
        ⟨.ok (strippedOutcome p file text count),
          d.put loc (.file ⟨Text.encode text, file.mode, true⟩),
          [removedEvent p file text count, replacedEvent p file text count]⟩ := by
  intro run
  rcases processFileBy_cases s p trees d with
    ⟨file, text, count, h⟩ | ⟨result, events, hres, hev, heq⟩
  · cases mode with
    | check =>
      refine .inl ⟨?_, fun hmode => nomatch hmode⟩
      rw [show run = _ from h.check_eq]
      exact ⟨rfl, by simp [removedEvent, Event.level]⟩
    | write =>
      obtain ⟨loc, target, hnames⟩ := exists_names h.read
      rcases h.write_cases hdisk fingerprint .nothing hnames rfl with hrun | ⟨-, e, hrun⟩
      · exact .inr ⟨rfl, file, text, count, loc, target, h, hnames, hrun⟩
      · refine .inl ⟨?_, fun _ q n before after hmodified => ?_⟩
        · rw [show run = _ from hrun]
          exact ⟨rfl, by simp [removedEvent, Event.level]⟩
        · rw [show run = _ from hrun] at hmodified
          cases hmodified
  · have hrun : run = ⟨result, d, events⟩ := heq disk κ fingerprint mode .nothing d rfl
    rw [hrun]
    refine .inl ⟨⟨rfl, fun e he => ?_⟩, fun _ q n before after hmodified => ?_⟩
    · obtain ⟨name, rfl⟩ := hev e he
      simp [Event.level]
    · cases hres _ hmodified

/-- **A run rewrites one file or does nothing**, on whatever disk.  With an error, without logging
statements, and when it only checks, the directory stays as it is, and nothing is told of a file
being written.  Otherwise the entry that the path names becomes a file with the stripped text and
the permissions of the file that was read; the outcome counts the bytes of both, and one event tells
of it.  A file with logging statements to remove comes to that whenever it can be read, unless the
disk fails by itself in a run that writes. -/
theorem rewrites_file_or_nothing (disk : Disk) (hdisk : disk.Lawful) (fingerprint : Fingerprint κ)
    (s : Stripper) (mode : WriteMode) (p : Path) (trees : Trees) (d : Directory) :
    let run := processFileBy disk fingerprint s mode p trees .nothing d
    (mode = .check ∨ (∃ e, run.result = .error e) ∨ (∃ q, run.result = .ok (.unchanged q)) →
      run.directory = d ∧ ∀ e ∈ run.events, e.level ≠ .info) ∧
    (∀ file text count, Strips s p trees d file text count →
      run.result = .ok (strippedOutcome p file text count) ∨
        mode = .write ∧ ¬ disk.Unfailing p ∧ ∃ e, run.result = .error (.io p e)) ∧
    ∀ q count before after, mode = .write → run.result = .ok (.modified q count before after) →
      q = p ∧ (∃ file source text loc,
        Text.decode file.content = some source ∧
        s.strip source p.sourceName trees = .ok (.modified text count) ∧
        Rewritten d run.directory p loc file ⟨Text.encode text, file.mode, true⟩ ∧
        before = file.content.length ∧ after = (Text.encode text).length) ∧
      run.events.filter (·.level = .info) = [.replaced p count (before - after)] := by
  intro run
  have hstrips : ∀ file text count, Strips s p trees d file text count →
      run.result = .ok (strippedOutcome p file text count) ∨
        mode = .write ∧ ¬ disk.Unfailing p ∧ ∃ e, run.result = .error (.io p e) :=
    fun _ _ _ h => h.result_cases hdisk fingerprint mode
  rcases processFileBy_rewrites hdisk fingerprint s mode p trees d with
    ⟨hnothing, hnot⟩ | ⟨rfl, file, text, count, loc, target, h, hnames, hrun⟩
  · refine ⟨fun _ => hnothing, hstrips, fun q n before after hmode hmodified => ?_⟩
    exact absurd hmodified (hnot hmode q n before after)
  · refine ⟨?_, hstrips, fun q n before after _ hresult => ?_⟩
    · rw [show run = _ from hrun]
      rintro (hmode | ⟨e, he⟩ | ⟨q, hq⟩)
      · cases hmode
      · cases he
      · cases hq
    · obtain ⟨source, hdecode, hstrip⟩ := h.strip
      rw [show run = _ from hrun] at hresult ⊢
      cases hresult
      refine ⟨rfl, ⟨file, source, text, loc, hdecode, hstrip, hnames.rewritten _, rfl, ?_⟩, ?_⟩
      · rw [Text.length_encode]
      · simp [removedEvent, replacedEvent, Event.level]

/-! ## A disk with no space left -/

namespace Sample

/-- What a disk says that is full. -/
def noSpace : PathError := .refused "No space left on device (os error 28)"

/-- A disk that is full after three bytes of a file. -/
def fullDisk : Disk :=
  { Disk.plain with
    write loc content := do
      Disk.plain.write loc (content.take 3)
      throw noSpace }

theorem lawful_fullDisk : fullDisk.Lawful :=
  { Disk.lawful_plain with
    write_ok := by
      intro d d' temp mode content hfile hrun
      obtain ⟨⟨⟩, d₁, -, hthrow⟩ := Action.bind_eq_ok_iff.mp hrun
      cases hthrow
    write_error := by
      intro d d' temp mode content e hfile hrun
      rcases Action.bind_eq_error_iff.mp hrun with hwrite | ⟨⟨⟩, d₁, hwrite, hthrow⟩
      · cases hwrite.symm.trans (Disk.change_of_file hfile _)
      · cases hthrow
        cases hwrite.symm.trans (Disk.change_of_file hfile _)
        exact ⟨_, rfl⟩ }

/-- What processing the file at hand comes to on such a disk. -/
def fullRun : Processed :=
  processFileBy fullDisk digest (.new .default) .write path trees .nothing directory

end Sample

/-- In the directory at hand the link becomes a file, and the file it led to is left.  A run that
checks changes nothing, and neither does one on a disk that is full. -/
theorem sample_rewrites_file :
    (processFileBy .plain Sample.digest (.new .default) .check Sample.path Sample.trees .nothing
        Sample.directory).directory = Sample.directory ∧
      (Sample.fullRun.result = .error (.io Sample.path Sample.noSpace) ∧
        Sample.fullRun.directory = Sample.directory) ∧
      ∃ loc, Rewritten Sample.directory
        (processFileBy .plain Sample.digest (.new .default) .write Sample.path Sample.trees .nothing
          Sample.directory).directory Sample.path loc Sample.file Sample.stripped := by
  obtain ⟨hcheck, -⟩ := rewrites_file_or_nothing .plain Disk.lawful_plain Sample.digest
    (.new .default) .check Sample.path Sample.trees Sample.directory
  obtain ⟨hfull, -⟩ := rewrites_file_or_nothing Sample.fullDisk Sample.lawful_fullDisk
    Sample.digest (.new .default) .write Sample.path Sample.trees Sample.directory
  obtain ⟨-, hstrips, hwrite⟩ := rewrites_file_or_nothing .plain Disk.lawful_plain Sample.digest
    (.new .default) .write Sample.path Sample.trees Sample.directory
  have hnoSpace : Sample.fullRun.result = .error (.io Sample.path Sample.noSpace) := by
    rw [Sample.fullRun, Sample.strips.write_known_eq .nothing Sample.strips.read rfl]
    rfl
  have hresult := (hstrips _ _ _ Sample.strips).resolve_right fun h => h.2.1 Sample.unfailing
  obtain ⟨-, ⟨file, source, text, loc, hdecode, hstrip, hrewritten, -⟩, -⟩ :=
    hwrite _ _ _ _ rfl hresult
  refine ⟨(hcheck (.inl rfl)).1, ⟨hnoSpace, (hfull (.inr (.inl ⟨_, hnoSpace⟩))).1⟩, loc, ?_⟩
  obtain rfl : Sample.file = file :=
    Except.ok.inj (Sample.strips.read.symm.trans hrewritten.read_old)
  obtain rfl : Sample.source = source := Option.some.inj (Sample.decode_eq.symm.trans hdecode)
  obtain rfl : Sample.text = text := by
    have h := Except.ok.inj (Sample.strip_eq.symm.trans hstrip)
    injection h
  exact hrewritten

end Delog

import Delog.File.Process
import Delog.Proofs.Directory.Disk
import Delog.Proofs.Strip.Outcome

/-!
# Proofs/File/Outcome — what processing a file comes to

Whether a file has logging statements to remove goes by what is read from it alone.  If it has none,
or cannot be stripped, nothing happens to the directory; if it has, a run that writes replaces it,
provided that it is known again.

* `processFileBy_cases` — what processing comes to goes by what is read from the file
* `Strips.check_eq`, `Strips.write_eq` — what becomes of a file with logging statements
* `Strips.write_known_eq` — it is replaced if it is known again, and the disk does not fail
* `Strips.write_cases` — a file that is known again is rewritten, or the disk fails
* `Strips.write_nothing_eq` — with nobody else at work, and no failure of the disk, it is rewritten
* `Strips.result_cases` — with nobody else at work, all that a run can come to
* `processFileBy_nothing` — on disks that do not fail, the disk and the fingerprint do not matter
-/

namespace Delog

open Directory

variable {κ : Type} [DecidableEq κ] {disk : Disk} {fingerprint : Fingerprint κ} {s : Stripper}
  {p : Path} {trees : Trees} {d d' : Directory} {loc target : Location}
  {file current : RegularFile} {text : Text} {count : Nat} {meanwhile : Interference}

/-! ## Replacing a file that is known again -/

theorem replaceIfSame_of_eq (hread : d.read p = .ok current) {expected : κ}
    (hsame : fingerprint current.content = expected) (content : Bytes) :
    replaceIfSame disk fingerprint p expected content d =
      match disk.replace p content d with
      | .error e d' => .error (.io p e) d'
      | .ok () d' => .ok () d' := by
  rw [replaceIfSame, hread]
  exact if_pos hsame

theorem replaceIfSame_of_ne (hread : d.read p = .ok current) {expected : κ}
    (hne : fingerprint current.content ≠ expected) (content : Bytes) :
    replaceIfSame disk fingerprint p expected content d = .error (.changed p) d := by
  rw [replaceIfSame, hread]
  exact if_neg hne

theorem replaceIfSame_of_error {e : PathError} (hread : d.read p = .error e) (expected : κ)
    (content : Bytes) :
    replaceIfSame disk fingerprint p expected content d = .error (.io p e) d := by
  rw [replaceIfSame, hread]

/-! ## Files with logging statements -/

/-- **A file with logging statements to remove**, with the text and the number of statements that
stripping it comes to. -/
structure Strips (s : Stripper) (p : Path) (trees : Trees) (d : Directory) (file : RegularFile)
    (text : Text) (count : Nat) : Prop where
  dialect : (Dialect.ofPath p).isSome = true
  read : d.read p = .ok file
  strip : ∃ source, Text.decode file.content = some source ∧
    s.strip source p.sourceName trees = .ok (.modified text count)

/-- What processing such a file comes to, if it succeeds. -/
def strippedOutcome (p : Path) (file : RegularFile) (text : Text) (count : Nat) : FileOutcome :=
  .modified p count file.content.length text.size

/-- The event that tells of statements removed from it. -/
def removedEvent (p : Path) (file : RegularFile) (text : Text) (count : Nat) : Event :=
  .removed p.sourceName count (file.content.length - text.size)

/-- The event that tells of it being written. -/
def replacedEvent (p : Path) (file : RegularFile) (text : Text) (count : Nat) : Event :=
  .replaced p count (file.content.length - text.size)

/-- **What processing comes to goes by what is read from the file**: it has logging statements to
remove, or else it is left alone, whoever else is at work, on whatever disk, and whether the run
writes or not. -/
theorem processFileBy_cases (s : Stripper) (p : Path) (trees : Trees) (d : Directory) :
    (∃ file text count, Strips s p trees d file text count) ∨
    ∃ result events, (∀ o, result = .ok o → o = .unchanged p) ∧
      (∀ e ∈ events, ∃ name, e = .nothingFound name) ∧
      ∀ disk (κ : Type) [DecidableEq κ] (fingerprint : Fingerprint κ) mode meanwhile d',
        d'.read p = d.read p →
          processFileBy disk fingerprint s mode p trees meanwhile d' = ⟨result, d', events⟩ := by
  cases hdialect : Dialect.ofPath p with
  | none =>
    refine .inr ⟨.error (.unsupported p), [], by simp, by simp, fun _ κ _ _ mode _ d' _ => ?_⟩
    rw [processFileBy, hdialect]
  | some dialect =>
    cases hread : d.read p with
    | error e =>
      refine .inr ⟨.error (.io p e), [], by simp, by simp, fun _ κ _ _ mode _ d' hd' => ?_⟩
      rw [processFileBy, hdialect]
      simp only [hd']
    | ok file =>
      cases hdecode : Text.decode file.content with
      | none =>
        refine .inr ⟨.error (.notUtf8 p), [], by simp, by simp, fun _ κ _ _ mode _ d' hd' => ?_⟩
        rw [processFileBy, hdialect]
        simp only [hd', hdecode]
      | some source =>
        cases hstrip : s.strip source p.sourceName trees with
        | error e =>
          refine .inr ⟨.error (.removal e), [], by simp, by simp, fun _ κ _ _ mode _ d' hd' => ?_⟩
          rw [processFileBy, hdialect]
          simp only [hd', hdecode, hstrip]
        | ok stripped =>
          cases stripped with
          | unchanged =>
            refine .inr ⟨.ok (.unchanged p), [.nothingFound p.sourceName], ?_, ?_,
              fun _ κ _ _ mode _ d' hd' => ?_⟩
            · rintro o ⟨⟩
              rfl
            · intro e he
              exact ⟨_, List.mem_singleton.mp he⟩
            · rw [processFileBy, hdialect]
              simp only [hd', hdecode, hstrip]
          | modified text count =>
            exact .inl ⟨file, text, count, by rw [hdialect]; rfl, hread, source, hdecode, hstrip⟩

namespace Strips

variable (h : Strips s p trees d file text count)
include h

theorem of_read_eq (hread : d'.read p = d.read p) : Strips s p trees d' file text count :=
  ⟨h.dialect, hread.trans h.read, h.strip⟩

/-- **A run that checks** tells what it comes to, and changes nothing. -/
theorem check_eq : processFileBy disk fingerprint s .check p trees meanwhile d =
    ⟨.ok (strippedOutcome p file text count), meanwhile.act d p, [removedEvent p file text count]⟩
    := by
  obtain ⟨dialect, hdialect⟩ := Option.isSome_iff_exists.mp h.dialect
  obtain ⟨source, hdecode, hstrip⟩ := h.strip
  rw [processFileBy, hdialect]
  simp only [h.read, hdecode, hstrip]
  rfl

/-- **A run that writes** replaces the file, provided that it is known again. -/
theorem write_eq : processFileBy disk fingerprint s .write p trees meanwhile d =
    match replaceIfSame disk fingerprint p (fingerprint file.content) (Text.encode text)
      (meanwhile.act d p) with
    | .error e d' => ⟨.error e, d', [removedEvent p file text count]⟩
    | .ok () d' => ⟨.ok (strippedOutcome p file text count), d',
        [removedEvent p file text count, replacedEvent p file text count]⟩ := by
  obtain ⟨dialect, hdialect⟩ := Option.isSome_iff_exists.mp h.dialect
  obtain ⟨source, hdecode, hstrip⟩ := h.strip
  rw [processFileBy, hdialect]
  simp only [h.read, hdecode, hstrip]
  rfl

/-- **A file that is known again** is replaced, if the disk does not fail. -/
theorem write_known_eq (meanwhile : Interference)
    (hread : (meanwhile.act d p).read p = .ok current)
    (hsame : fingerprint current.content = fingerprint file.content) :
    processFileBy disk fingerprint s .write p trees meanwhile d =
      match disk.replace p (Text.encode text) (meanwhile.act d p) with
      | .error e d' => ⟨.error (.io p e), d', [removedEvent p file text count]⟩
      | .ok () d' => ⟨.ok (strippedOutcome p file text count), d',
          [removedEvent p file text count, replacedEvent p file text count]⟩ := by
  rw [h.write_eq, replaceIfSame_of_eq hread hsame]
  cases disk.replace p (Text.encode text) (meanwhile.act d p) <;> rfl

/-- **A file that is known again** is rewritten, or the disk has failed and nothing has happened. -/
theorem write_cases (hdisk : disk.Lawful) (fingerprint : Fingerprint κ) (meanwhile : Interference)
    (hnames : (meanwhile.act d p).Names p loc target current)
    (hsame : fingerprint current.content = fingerprint file.content) :
    processFileBy disk fingerprint s .write p trees meanwhile d =
        ⟨.ok (strippedOutcome p file text count),
          (meanwhile.act d p).put loc (.file ⟨Text.encode text, current.mode, true⟩),
          [removedEvent p file text count, replacedEvent p file text count]⟩ ∨
      ¬ disk.Unfailing p ∧ ∃ e, processFileBy disk fingerprint s .write p trees meanwhile d =
        ⟨.error (.io p e), meanwhile.act d p, [removedEvent p file text count]⟩ := by
  rw [h.write_known_eq meanwhile hnames.read_eq hsame]
  cases hrun : disk.replace p (Text.encode text) (meanwhile.act d p) with
  | ok _ d' =>
    rw [hdisk.replace_ok hnames hrun]
    exact .inl rfl
  | error e d' =>
    rw [hdisk.replace_error hrun]
    refine .inr ⟨fun hp => ?_, e, rfl⟩
    cases hrun.symm.trans (hdisk.replace_of_unfailing hp hnames _)

/-- **With nobody else at work** a run that writes rewrites the file, if the disk does not fail. -/
theorem write_nothing_eq (hdisk : disk.Lawful) (hp : disk.Unfailing p)
    (hnames : d.Names p loc target file) :
    processFileBy disk fingerprint s .write p trees .nothing d =
      ⟨.ok (strippedOutcome p file text count),
        d.put loc (.file ⟨Text.encode text, file.mode, true⟩),
        [removedEvent p file text count, replacedEvent p file text count]⟩ :=
  (h.write_cases hdisk fingerprint .nothing hnames rfl).resolve_right fun hnot => hnot.1 hp

/-- **With nobody else at work** a run comes to the removal of the statements, whether it writes or
not, or the disk has failed in a run that writes. -/
theorem result_cases (hdisk : disk.Lawful) (fingerprint : Fingerprint κ) (mode : WriteMode) :
    (processFileBy disk fingerprint s mode p trees .nothing d).result =
        .ok (strippedOutcome p file text count) ∨
      mode = .write ∧ ¬ disk.Unfailing p ∧
        ∃ e, (processFileBy disk fingerprint s mode p trees .nothing d).result =
          .error (.io p e) := by
  cases mode with
  | check => exact .inl (by rw [h.check_eq])
  | write =>
    obtain ⟨loc, target, hnames⟩ := exists_names h.read
    rcases h.write_cases hdisk fingerprint .nothing hnames rfl with hrun | ⟨hfails, e, hrun⟩
    · exact .inl (by rw [hrun])
    · exact .inr ⟨rfl, hfails, e, by rw [hrun]⟩

/-- **With nobody else at work** and a disk that does not fail, a run comes to the removal of the
statements, whether it writes or not. -/
theorem result_nothing_eq (hdisk : disk.Lawful) (hp : disk.Unfailing p)
    (fingerprint : Fingerprint κ) (mode : WriteMode) :
    (processFileBy disk fingerprint s mode p trees .nothing d).result =
      .ok (strippedOutcome p file text count) :=
  (h.result_cases hdisk fingerprint mode).resolve_right fun hnot => hnot.2.1 hp

end Strips

/-- **With nobody else at work** it does not matter on which disk a file is processed, or by which
fingerprint it is known again, as long as the disk does not fail. -/
theorem processFileBy_nothing {κ' : Type} [DecidableEq κ'] {disk' : Disk} (hdisk : disk.Lawful)
    (hp : disk.Unfailing p) (hdisk' : disk'.Lawful) (hp' : disk'.Unfailing p)
    (fingerprint : Fingerprint κ) (fingerprint' : Fingerprint κ') (s : Stripper) (mode : WriteMode)
    (trees : Trees) (d : Directory) :
    processFileBy disk fingerprint s mode p trees .nothing d =
      processFileBy disk' fingerprint' s mode p trees .nothing d := by
  rcases processFileBy_cases s p trees d with ⟨file, text, count, h⟩ | ⟨_, _, -, -, heq⟩
  · cases mode with
    | check => rw [h.check_eq, h.check_eq]
    | write =>
      obtain ⟨loc, target, hnames⟩ := exists_names h.read
      rw [h.write_nothing_eq hdisk hp hnames, h.write_nothing_eq hdisk' hp' hnames]
  · rw [heq disk κ fingerprint mode .nothing d rfl, heq disk' κ' fingerprint' mode .nothing d rfl]

end Delog

/-! ## A directory at hand -/

namespace Delog.Sample

/-- The path `a.ts`. -/
def path : Path := Text.encode "a.ts".toList

/-- A file with the source in it. -/
def file : RegularFile := ⟨Text.encode source, 0o600, false⟩

/-- The file without its logging statements. -/
def stripped : RegularFile := ⟨Text.encode text, 0o600, true⟩

/-- A directory in which the path names a link to the file. -/
def directory : Directory :=
  ⟨[([path], .link (Text.encode "b.js".toList)), ([Text.encode "b.js".toList], .file file)]⟩

/-- A fingerprint of 64 bits, by its values for what the file holds and for nothing at all. -/
def digest : Fingerprint UInt64 := fun content =>
  if content = file.content then 0x59652a92249cdbed
  else if content = [] then 0x2d06800538d394c2
  else 0

theorem unfailing : Disk.plain.Unfailing path := Disk.unfailing_plain (by decide)

theorem decode_eq : Text.decode file.content = some source := by decide

theorem strips : Strips (.new .default) path trees directory file text 2 where
  dialect := by decide
  read := by decide
  strip := ⟨source, decode_eq, strip_eq⟩

end Delog.Sample

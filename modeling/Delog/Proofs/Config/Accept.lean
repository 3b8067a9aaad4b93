import Delog.Config.Load
import Mathlib

/-!
# Proofs/Config/Accept — which documents give settings, and which error comes first

A document may give the name of the logging object and nothing else.  Whether an entry offends
depends on it and on the entries before it; the first one that does is reported, and the name itself
is looked at only if none does.

* `Options.check_eq_none_iff` — settings make sense if the name is a plain identifier
* `objectName_eq_error_iff` — the first entry that offends is the one reported
* `noOffence_iff` — the documents in which no entry offends
* `ofText_outcome` — what comes of each document
-/

namespace Delog

open Text

/-! ## Names -/

/-- **A plain identifier**: `_`, `$` or a letter, and then any number of these and of digits. -/
def PlainIdentifier (name : Text) : Prop :=
  ∃ c s, name = c :: s ∧ (c = '_' ∨ c = '$' ∨ isAlphabetic c = true) ∧
    ∀ d ∈ s, d = '_' ∨ d = '$' ∨ isAlphabetic d = true ∨ isNumeric d = true

/-- **A blank name**: white space only, if there is anything. -/
def BlankName (name : Text) : Prop := ∀ c ∈ name, isBlank c = true

instance (name : Text) : Decidable (BlankName name) :=
  decidable_of_iff (name.all isBlank = true) List.all_eq_true

namespace Options

theorem startsIdentifier_iff {c : Char} :
    startsIdentifier c = true ↔ c = '_' ∨ c = '$' ∨ isAlphabetic c = true := by
  rw [startsIdentifier, Bool.or_eq_true, Bool.or_eq_true, beq_iff_eq, beq_iff_eq, or_assoc]

theorem continuesIdentifier_iff {c : Char} : continuesIdentifier c = true ↔
    c = '_' ∨ c = '$' ∨ isAlphabetic c = true ∨ isNumeric c = true := by
  rw [continuesIdentifier, Bool.or_eq_true, startsIdentifier_iff, or_assoc, or_assoc]

theorem isIdentifier_iff {name : Text} : isIdentifier name = true ↔ PlainIdentifier name := by
  cases name with
  | nil => simp [isIdentifier, PlainIdentifier]
  | cons c s =>
    simp only [isIdentifier, Bool.and_eq_true, List.all_eq_true, startsIdentifier_iff,
      continuesIdentifier_iff, PlainIdentifier]
    constructor
    · exact fun ⟨hc, hs⟩ => ⟨c, s, rfl, hc, hs⟩
    · rintro ⟨_, _, h, hc, hs⟩
      cases h
      exact ⟨hc, hs⟩

/-- No blank is a letter, `_` or `$`. -/
theorem not_startsIdentifier_of_mem_blanks : ∀ c ∈ blanks, startsIdentifier c = false := by
  have hall : (blanks.all fun c => !startsIdentifier c) = true := by decide +kernel
  intro c hc
  simpa using List.all_eq_true.mp hall c hc

/-- **No plain identifier is blank.** -/
theorem not_plainIdentifier_of_blankName {name : Text} (h : BlankName name) :
    ¬ PlainIdentifier name := by
  rintro ⟨c, s, rfl, hc, -⟩
  have hblank : c ∈ blanks := List.contains_iff_mem.mp (h c List.mem_cons_self)
  have hstarts : startsIdentifier c = true := startsIdentifier_iff.mpr hc
  rw [not_startsIdentifier_of_mem_blanks c hblank] at hstarts
  cases hstarts

/-- **What is wrong with settings**, by the name of the logging object. -/
theorem check_eq (o : Options) : o.check =
    if BlankName o.loggingObject.toList then some .emptyObject
    else if isIdentifier o.loggingObject.toList then none
    else some (.notAnIdentifier o.loggingObject) := by
  have hblank :
      (trim o.loggingObject.toList).isEmpty = true ↔ BlankName o.loggingObject.toList := by
    rw [List.isEmpty_iff, trim_eq_nil, BlankName]
  simp only [check, hblank]

/-- **Settings make sense** if and only if the name is a plain identifier. -/
theorem check_eq_none_iff {o : Options} :
    o.check = none ↔ PlainIdentifier o.loggingObject.toList := by
  rw [check_eq, ← isIdentifier_iff]
  by_cases hblank : BlankName o.loggingObject.toList
  · have hnot := mt isIdentifier_iff.mp (not_plainIdentifier_of_blankName hblank)
    simp [hblank, hnot]
  · simp [hblank]

/-- **What is wrong with settings** that make no sense: their name is blank, or no plain
identifier. -/
theorem check_of_not_plainIdentifier {o : Options} (h : ¬ PlainIdentifier o.loggingObject.toList) :
    o.check = some (if BlankName o.loggingObject.toList then .emptyObject
      else .notAnIdentifier o.loggingObject) := by
  rw [check_eq]
  split
  · rfl
  · rw [if_neg (mt isIdentifier_iff.mp h)]

/-- The default settings make sense. -/
theorem check_default : default.check = none :=
  check_eq_none_iff.mpr (isIdentifier_iff.mp (by decide +kernel))

end Options

namespace Config

open Toml (Entries)

/-! ## Offences -/

/-- **The keys for the name of the logging object**, in both spellings. -/
def IsObjectKey (key : Text) : Prop :=
  key = "logging_object_name".toList ∨ key = "loggingObjectName".toList

/-- **An entry that offends**, by the entries before it: its key is unknown, or it gives the name of
the logging object once more, under whichever key, or as something else than a string. -/
inductive Offends (earlier : Entries) : Text × Toml.Value → SchemaError → Prop
  | unknown {key : Text} {value : Toml.Value} (hkey : ¬ IsObjectKey key) :
    Offends earlier (key, value) (.unknownField key)
  | again {key : Text} {value : Toml.Value} (hkey : IsObjectKey key)
    (hearlier : ∃ entry ∈ earlier, IsObjectKey entry.1) :
    Offends earlier (key, value) .duplicateField
  | noString {key : Text} {value : Toml.Value} (hkey : IsObjectKey key)
    (hearlier : ¬ ∃ entry ∈ earlier, IsObjectKey entry.1) (hvalue : ∀ name, value ≠ .string name) :
    Offends earlier (key, value) (.notString value)

/-- The entry at a place of a document offends. -/
def OffendsAt (entries : Entries) (i : Nat) (e : SchemaError) : Prop :=
  ∃ entry, entries[i]? = some entry ∧ Offends (entries.take i) entry e

/-- **The first offence of a document**: an entry offends, and none before it does. -/
def FirstOffence (entries : Entries) (e : SchemaError) : Prop :=
  ∃ i, OffendsAt entries i e ∧ ∀ j < i, ∀ e', ¬ OffendsAt entries j e'

/-- **A document without offences.** -/
def NoOffence (entries : Entries) : Prop := ∀ i e, ¬ OffendsAt entries i e

theorem Offends.unique {earlier : Entries} {entry : Text × Toml.Value} {e e' : SchemaError}
    (h : Offends earlier entry e) (h' : Offends earlier entry e') : e = e' := by
  cases h <;> cases h' <;> first | rfl | contradiction

theorem FirstOffence.unique {entries : Entries} {e e' : SchemaError} (h : FirstOffence entries e)
    (h' : FirstOffence entries e') : e = e' := by
  obtain ⟨i, hi, hfirst⟩ := h
  obtain ⟨j, hj, hfirst'⟩ := h'
  have hij : i = j := by
    rcases Nat.lt_trichotomy i j with h | h | h
    · exact (hfirst' i h e hi).elim
    · exact h
    · exact (hfirst j h e' hj).elim
  subst hij
  obtain ⟨entry, hentry, hoff⟩ := hi
  obtain ⟨entry', hentry', hoff'⟩ := hj
  cases hentry.symm.trans hentry'
  exact hoff.unique hoff'

/-- An entry that does not offend is the first to give the name, as a string. -/
theorem fits_of_not_offends {earlier : Entries} {entry : Text × Toml.Value}
    (h : ∀ e, ¬ Offends earlier entry e) :
    ∃ key name, entry = (key, .string name) ∧ IsObjectKey key ∧
      ¬ ∃ entry ∈ earlier, IsObjectKey entry.1 := by
  obtain ⟨key, value⟩ := entry
  have hkey : IsObjectKey key := Classical.not_not.mp fun hkey => h _ (.unknown hkey)
  have hearlier : ¬ ∃ entry ∈ earlier, IsObjectKey entry.1 := fun hearlier =>
    h _ (.again hkey hearlier)
  by_cases hvalue : ∃ name, value = .string name
  · obtain ⟨name, rfl⟩ := hvalue
    exact ⟨key, name, rfl, hkey, hearlier⟩
  · exact (h _ (.noString hkey hearlier (not_exists.mp hvalue))).elim

/-! ## The entries in order -/

theorem contains_objectKeys_iff {key : Text} :
    objectKeys.contains (String.ofList key) = true ↔ IsObjectKey key := by
  rw [List.contains_iff_mem, objectKeys, List.mem_cons, List.mem_singleton, IsObjectKey,
    ← String.toList_inj, ← String.toList_inj, String.toList_ofList]

variable {earlier later : Entries} {entry : Text × Toml.Value} {found : Option Text}

/-- **An entry that offends is reported**, if a name has been found just when an earlier entry gives
one. -/
theorem objectName_of_offends {e : SchemaError}
    (hfound : found.isSome = true ↔ ∃ entry ∈ earlier, IsObjectKey entry.1)
    (h : Offends earlier entry e) : objectName found (entry :: later) = .error e := by
  cases h with
  | unknown hkey =>
    have hnot := mt contains_objectKeys_iff.mp hkey
    unfold objectName
    rw [if_pos (by simpa using hnot)]
  | again hkey hearlier =>
    unfold objectName
    rw [contains_objectKeys_iff.mpr hkey, hfound.mpr hearlier]
    rfl
  | noString hkey hearlier hvalue =>
    have hnone : found.isSome = false := by simpa using mt hfound.mp hearlier
    rw [objectName, contains_objectKeys_iff.mpr hkey, hnone]
    · rfl
    · exact hvalue

/-- An entry that fits gives the name. -/
theorem objectName_of_fits {key name : Text} (hkey : IsObjectKey key)
    (hfound : found.isSome = false) :
    objectName found ((key, .string name) :: later) = objectName (some name) later := by
  rw [objectName, contains_objectKeys_iff.mpr hkey, hfound]
  rfl

/-- **Entries are taken until one offends**: from any place on, if none before it does. -/
theorem objectName_spec (later : Entries) : ∀ (earlier : Entries) (found : Option Text),
    (found.isSome = true ↔ ∃ entry ∈ earlier, IsObjectKey entry.1) →
    (∀ i < earlier.length, ∀ e, ¬ OffendsAt (earlier ++ later) i e) →
      match objectName found later with
      | .error e => FirstOffence (earlier ++ later) e
      | .ok _ => NoOffence (earlier ++ later) := by
  induction later with
  | nil =>
    intro earlier found _ hclean i e hi
    obtain ⟨_, hentry, _⟩ := id hi
    have hlt := (List.getElem?_eq_some_iff.mp hentry).1
    rw [List.append_nil] at hlt
    exact hclean i hlt e hi
  | cons entry later ih =>
    intro earlier found hfound hclean
    have hat (e : SchemaError) :
        OffendsAt (earlier ++ entry :: later) earlier.length e ↔ Offends earlier entry e := by
      simp [OffendsAt]
    by_cases hoff : ∃ e, Offends earlier entry e
    · obtain ⟨e, he⟩ := hoff
      rw [objectName_of_offends hfound he]
      exact ⟨earlier.length, (hat e).mpr he, hclean⟩
    · have hfit := not_exists.mp hoff
      obtain ⟨key, name, rfl, hkey, hearlier⟩ := fits_of_not_offends hfit
      have hnone : found.isSome = false := by simpa using mt hfound.mp hearlier
      rw [objectName_of_fits hkey hnone]
      have hsnoc : earlier ++ (key, Toml.Value.string name) :: later =
          (earlier ++ [(key, .string name)]) ++ later := (List.append_cons ..)
      rw [hsnoc] at hclean hat ⊢
      refine ih _ (some name) (by simp [hkey]) fun i hi e => ?_
      rw [List.length_append, List.length_singleton, Nat.lt_succ_iff_lt_or_eq] at hi
      rcases hi with hi | rfl
      · exact hclean i hi e
      · rw [hat]
        exact hfit e

/-- **The first entry that offends is the one reported.** -/
theorem objectName_eq_error_iff {entries : Entries} {e : SchemaError} :
    objectName none entries = .error e ↔ FirstOffence entries e := by
  have hspec := objectName_spec entries [] none (by simp) (by simp)
  rw [List.nil_append] at hspec
  constructor
  · intro h
    rwa [h] at hspec
  · intro h
    cases hname : objectName none entries with
    | error e' =>
      rw [hname] at hspec
      rw [hspec.unique h]
    | ok found =>
      rw [hname] at hspec
      obtain ⟨i, hi, -⟩ := h
      exact (hspec i e hi).elim

/-- **An entry offends, or none does.** -/
theorem firstOffence_or_noOffence (entries : Entries) :
    (∃ e, FirstOffence entries e) ∨ NoOffence entries := by
  have hspec := objectName_spec entries [] none (by simp) (by simp)
  rw [List.nil_append] at hspec
  cases hname : objectName none entries with
  | error e =>
    rw [hname] at hspec
    exact .inl ⟨e, hspec⟩
  | ok found =>
    rw [hname] at hspec
    exact .inr hspec

/-- **No entry offends** in a document with no entries, and in one that only gives the name of the
logging object, as a string. -/
theorem noOffence_iff {entries : Entries} : NoOffence entries ↔
    entries = [] ∨ ∃ key name, entries = [(key, .string name)] ∧ IsObjectKey key := by
  constructor
  · intro h
    rcases entries with _ | ⟨first, _ | ⟨second, rest⟩⟩
    · exact .inl rfl
    · obtain ⟨key, name, rfl, hkey, -⟩ := fits_of_not_offends fun e he => h 0 e ⟨first, rfl, he⟩
      exact .inr ⟨key, name, rfl, hkey⟩
    · obtain ⟨key, name, rfl, hkey, -⟩ := fits_of_not_offends fun e he => h 0 e ⟨first, rfl, he⟩
      obtain ⟨_, _, _, _, hearlier⟩ := fits_of_not_offends fun e he => h 1 e ⟨second, rfl, he⟩
      exact (hearlier ⟨_, List.mem_cons_self, hkey⟩).elim
  · rintro (rfl | ⟨key, name, rfl, hkey⟩) i e ⟨entry, hentry, hoff⟩
    · cases hentry
    · cases i with
      | succ i => cases hentry
      | zero =>
        cases hentry
        cases hoff with
        | unknown hnot => exact hnot hkey
        | again _ hearlier => simp at hearlier
        | noString _ _ hvalue => exact hvalue name rfl

/-! ## Settings -/

theorem ofEntries_of_firstOffence {entries : Entries} {e : SchemaError}
    (h : FirstOffence entries e) : ofEntries entries = .error (.schema e) := by
  rw [ofEntries, objectName_eq_error_iff.mpr h]

theorem ofEntries_nil : ofEntries [] = .ok ⟨"console"⟩ := by
  have hcheck : (Options.mk "console").check = none := Options.check_default
  rw [ofEntries, objectName]
  simp only [Option.map_none, Option.getD_none, Options.default, hcheck]

/-- With a single entry for it, the name is looked at. -/
theorem ofEntries_singleton {key : Text} (hkey : IsObjectKey key) (name : Text) :
    ofEntries [(key, .string name)] =
      match (Options.mk (String.ofList name)).check with
      | some e => .error (.invalid e)
      | none => .ok ⟨String.ofList name⟩ := by
  rw [ofEntries, objectName_of_fits hkey rfl, objectName]
  rfl

theorem ofEntries_of_plainIdentifier {key name : Text} (hkey : IsObjectKey key)
    (hname : PlainIdentifier name) :
    ofEntries [(key, .string name)] = .ok ⟨String.ofList name⟩ := by
  rw [ofEntries_singleton hkey, Options.check_eq_none_iff.mpr (by rwa [String.toList_ofList])]

theorem ofEntries_of_not_plainIdentifier {key name : Text} (hkey : IsObjectKey key)
    (hname : ¬ PlainIdentifier name) :
    ofEntries [(key, .string name)] = .error (.invalid
      (if BlankName name then .emptyObject else .notAnIdentifier (String.ofList name))) := by
  rw [ofEntries_singleton hkey,
    Options.check_of_not_plainIdentifier (by rwa [String.toList_ofList]), String.toList_ofList]

/-- **What comes of the entries of a document**: an offence, the default settings, or what is made
of the one name it gives. -/
theorem ofEntries_cases (entries : Entries) :
    (∃ e, FirstOffence entries e ∧ ofEntries entries = .error (.schema e)) ∨
      (entries = [] ∧ ofEntries entries = .ok ⟨"console"⟩) ∨
      ∃ key name, entries = [(key, .string name)] ∧ IsObjectKey key ∧
        (PlainIdentifier name ∧ ofEntries entries = .ok ⟨String.ofList name⟩ ∨
          ¬ PlainIdentifier name ∧ ofEntries entries = .error (.invalid
            (if BlankName name then .emptyObject else .notAnIdentifier (String.ofList name)))) := by
  rcases firstOffence_or_noOffence entries with ⟨e, he⟩ | hnone
  · exact .inl ⟨e, he, ofEntries_of_firstOffence he⟩
  · rcases noOffence_iff.mp hnone with rfl | ⟨key, name, rfl, hkey⟩
    · exact .inr (.inl ⟨rfl, ofEntries_nil⟩)
    · refine .inr (.inr ⟨key, name, rfl, hkey, ?_⟩)
      by_cases hname : PlainIdentifier name
      · exact .inl ⟨hname, ofEntries_of_plainIdentifier hkey hname⟩
      · exact .inr ⟨hname, ofEntries_of_not_plainIdentifier hkey hname⟩

/-- **A document is accepted** if it is empty, or gives a plain identifier as the name and nothing
else. -/
theorem ofEntries_eq_ok_iff {entries : Entries} {o : Options} : ofEntries entries = .ok o ↔
    (entries = [] ∧ o = ⟨"console"⟩) ∨
      ∃ key name, entries = [(key, .string name)] ∧ IsObjectKey key ∧ PlainIdentifier name ∧
        o = ⟨String.ofList name⟩ := by
  constructor
  · intro h
    rcases ofEntries_cases entries with
      ⟨e, -, he⟩ | ⟨hnil, ho⟩ | ⟨key, name, hone, hkey, ⟨hname, ho⟩ | ⟨-, he⟩⟩
    · cases he.symm.trans h
    · cases ho.symm.trans h
      exact .inl ⟨hnil, rfl⟩
    · cases ho.symm.trans h
      exact .inr ⟨key, name, hone, hkey, hname, rfl⟩
    · cases he.symm.trans h
  · rintro (⟨rfl, rfl⟩ | ⟨key, name, rfl, hkey, hname, rfl⟩)
    · exact ofEntries_nil
    · exact ofEntries_of_plainIdentifier hkey hname

/-- **An entry is reported** if it is the first that offends. -/
theorem ofEntries_eq_schema_iff {entries : Entries} {e : SchemaError} :
    ofEntries entries = .error (.schema e) ↔ FirstOffence entries e := by
  refine ⟨fun h => ?_, ofEntries_of_firstOffence⟩
  rcases ofEntries_cases entries with
    ⟨e', hfirst, he⟩ | ⟨-, ho⟩ | ⟨_, _, -, -, ⟨-, ho⟩ | ⟨-, he⟩⟩
  · cases he.symm.trans h
    exact hfirst
  · cases ho.symm.trans h
  · cases ho.symm.trans h
  · cases he.symm.trans h

/-- **The name is reported** if no entry offends and it is no plain identifier. -/
theorem ofEntries_eq_invalid_iff {entries : Entries} {e : OptionsError} :
    ofEntries entries = .error (.invalid e) ↔ NoOffence entries ∧
      ∃ key name, entries = [(key, .string name)] ∧ ¬ PlainIdentifier name ∧
        e = if BlankName name then .emptyObject else .notAnIdentifier (String.ofList name) := by
  constructor
  · intro h
    rcases ofEntries_cases entries with
      ⟨_, -, he⟩ | ⟨-, ho⟩ | ⟨key, name, hone, hkey, ⟨-, ho⟩ | ⟨hname, he⟩⟩
    · cases he.symm.trans h
    · cases ho.symm.trans h
    · cases ho.symm.trans h
    · cases he.symm.trans h
      exact ⟨noOffence_iff.mpr (.inr ⟨key, name, hone, hkey⟩), key, name, hone, hname, rfl⟩
  · rintro ⟨hnone, key, name, rfl, hname, rfl⟩
    rcases noOffence_iff.mp hnone with hnil | ⟨_, _, hone, hkey⟩
    · cases hnil
    · cases hone
      exact ofEntries_of_not_plainIdentifier hkey hname

/-- The errors are of these two sorts. -/
theorem error_of_ofEntries {entries : Entries} {c : ConfigError}
    (h : ofEntries entries = .error c) :
    (∃ e, c = .schema e) ∨ ∃ e, c = .invalid e := by
  rcases ofEntries_cases entries with
    ⟨e, -, he⟩ | ⟨-, ho⟩ | ⟨_, _, -, -, ⟨-, ho⟩ | ⟨-, he⟩⟩
  · cases he.symm.trans h
    exact .inl ⟨e, rfl⟩
  · cases ho.symm.trans h
  · cases ho.symm.trans h
  · cases he.symm.trans h
    exact .inr ⟨_, rfl⟩

/-- **Settings that a document gives make sense.** -/
theorem check_of_ofTextBy {read : Reader} {s : Text} {o : Options} (h : ofTextBy read s = .ok o) :
    o.check = none := by
  rw [ofTextBy] at h
  split at h
  · cases h
  · rw [ofEntries] at h
    split at h
    · cases h
    · dsimp only at h
      split at h
      · cases h
      · rename_i hcheck
        cases h
        exact hcheck

/-- So do those a file gives. -/
theorem check_of_ofFileBy {read : Reader} {d : Directory} {p : Path} {o : Options}
    (h : ofFileBy read d p = .ok o) : o.check = none := by
  rw [ofFileBy] at h
  split at h
  · cases h
  · rename_i s hs
    cases htext : ofTextBy read s with
    | error e =>
      rw [htext] at h
      cases h
    | ok o' =>
      rw [htext] at h
      cases h
      exact check_of_ofTextBy htext

/-- **What comes of a document**, by the entries that a reader finds in it, in order.  It is
accepted if it is empty, and then the logging object is `console`, or if its only entry gives a
plain identifier as the name, under either key.  Otherwise the first entry that offends is reported,
and if there is none, that the name is blank or no plain identifier.  Settings that are given make
sense, whether they are read from a text or from a file. -/
theorem ofText_outcome (read : Reader) :
    (∀ s entries, read s = some entries →
      (∀ o, ofTextBy read s = .ok o ↔ (entries = [] ∧ o = ⟨"console"⟩) ∨
        ∃ key name, entries = [(key, .string name)] ∧ IsObjectKey key ∧ PlainIdentifier name ∧
          o = ⟨String.ofList name⟩) ∧
      (∀ e, ofTextBy read s = .error (.schema e) ↔ FirstOffence entries e) ∧
      (∀ e, ofTextBy read s = .error (.invalid e) ↔ NoOffence entries ∧
        ∃ key name, entries = [(key, .string name)] ∧ ¬ PlainIdentifier name ∧
          e = if BlankName name then .emptyObject else .notAnIdentifier (String.ofList name)) ∧
      ∀ c, ofTextBy read s = .error c → (∃ e, c = .schema e) ∨ ∃ e, c = .invalid e) ∧
    (∀ s o, ofTextBy read s = .ok o → o.check = none) ∧
      ∀ d p o, ofFileBy read d p = .ok o → o.check = none := by
  refine ⟨fun s entries hread => ?_, fun _ _ => check_of_ofTextBy, fun _ _ _ => check_of_ofFileBy⟩
  have htext : ofTextBy read s = ofEntries entries := by rw [ofTextBy, hread]
  rw [htext]
  exact ⟨fun _ => ofEntries_eq_ok_iff, fun _ => ofEntries_eq_schema_iff,
    fun _ => ofEntries_eq_invalid_iff, fun _ => error_of_ofEntries⟩

end Config

namespace Sample

/-- A document that gives the name of the logging object, under one key and then under the other. -/
def twice : Text := "loggingObjectName = \"\"\nlogging_object_name = 3\n".toList

/-- In the document at hand the second entry is the first that offends, as it gives the name again;
that it is no string, and that the first name is empty, does not come to light. -/
theorem sample_ofText_outcome :
    Config.ofText twice = .error (.schema .duplicateField) ∧
      Config.ofText "loggingObjectName = \" \"\n".toList = .error (.invalid .emptyObject) := by
  obtain ⟨hread, -⟩ := Config.ofText_outcome Toml.read
  have htwice : Toml.read twice = some [("loggingObjectName".toList, .string []),
      ("logging_object_name".toList, .integer 3)] := by cbv
  have hblank : Toml.read "loggingObjectName = \" \"\n".toList =
      some [("loggingObjectName".toList, .string [' '])] := by cbv
  constructor
  · obtain ⟨-, hschema, -⟩ := hread _ _ htwice
    refine (hschema _).mpr ⟨1, ⟨_, rfl, .again (.inl rfl) ⟨_, List.mem_cons_self, .inr rfl⟩⟩, ?_⟩
    rintro j hj e ⟨entry, hentry, hoff⟩
    obtain rfl : j = 0 := Nat.lt_one_iff.mp hj
    cases hentry
    cases hoff with
    | unknown hkey => exact hkey (.inr rfl)
    | again _ hearlier => simp at hearlier
    | noString _ _ hvalue => exact hvalue _ rfl
  · obtain ⟨-, -, hinvalid, -⟩ := hread _ _ hblank
    have hnone : Config.NoOffence [("loggingObjectName".toList, .string [' '])] :=
      Config.noOffence_iff.mpr (.inr ⟨_, _, rfl, .inr rfl⟩)
    refine (hinvalid _).mpr ⟨hnone, _, _, rfl, ?_, rfl⟩
    exact Options.not_plainIdentifier_of_blankName (by decide)

end Sample

end Delog

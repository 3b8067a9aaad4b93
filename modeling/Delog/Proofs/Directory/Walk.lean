import Delog.Directory.Access

/-!
# Proofs/Directory/Walk — what a walk along a path depends on

A walk passes through directories, and through the links it meets on the way to them.  An entry that
it ends at, be it a file or a link to one, is not met before: a link that leads to a file leads to
no directory that could be passed.  So a change of that entry, and of what is below it, does not
turn the walk aside.

* `SameShape.locate_eq` — where paths lead goes by the shape of a directory alone
* `advance_cases` — all that a stretch of a walk can come to
* `Leads.not_leads_append` — a path that leads to a file leads nowhere with more steps after it
* `Leads.exists_entry` — a walk to a file ends at one entry, and there still when it is changed
-/

namespace Delog

/-- An entry apart from what a file holds. -/
def Entry.shape : Entry → Entry
  | .file _ => .file ⟨[], 0, false⟩
  | e => e

namespace Directory

variable {d d' : Directory} {base loc target : Location} {steps rest : List Step} {f : RegularFile}

/-! ## Directories of one shape -/

/-- **Two directories of one shape**: they have the same links and directories, and files at the
same locations. -/
def SameShape (d d' : Directory) : Prop :=
  ∀ l, (d.find? l).map Entry.shape = (d'.find? l).map Entry.shape

theorem SameShape.refl (d : Directory) : SameShape d d := fun _ => rfl

theorem SameShape.symm (h : SameShape d d') : SameShape d' d := fun l => (h l).symm

theorem SameShape.trans {d₁ d₂ d₃ : Directory} (h : SameShape d₁ d₂) (h' : SameShape d₂ d₃) :
    SameShape d₁ d₃ :=
  fun l => (h l).trans (h' l)

theorem SameShape.advance_eq (h : SameShape d d') (follow : Bool) (base : Location)
    (steps : List Step) : advance d follow base steps = advance d' follow base steps := by
  induction steps generalizing base with
  | nil => rfl
  | cons step rest ih =>
    cases step with
    | here => exact ih base
    | up => simp only [advance, ih]
    | top => rfl
    | into n =>
      have hn := h (base ++ [n])
      simp only [advance, ih]
      cases hd : d.find? (base ++ [n]) with
      | none => cases hd' : d'.find? (base ++ [n]) <;> simp_all
      | some e =>
        cases hd' : d'.find? (base ++ [n]) with
        | none => simp [hd, hd'] at hn
        | some e' => cases e <;> cases e' <;> simp_all [Entry.shape]

theorem SameShape.walk_eq (h : SameShape d d') (follow : Bool) (links : Nat) (base : Location)
    (steps : List Step) : walk d follow links base steps = walk d' follow links base steps := by
  induction links generalizing base steps with
  | zero => rw [walk, walk, h.advance_eq]
  | succ links ih =>
    rw [walk, walk, h.advance_eq]
    cases advance d' follow base steps <;> simp [ih]

/-- **Where paths lead goes by the shape alone.** -/
theorem SameShape.locate_eq (h : SameShape d d') (follow : Bool) (p : Path) :
    d.locate follow p = d'.locate follow p := by
  rw [locate, locate, h.walk_eq]

/-! ## Walks as derivations -/

/-- **A walk leads to a place**, by following no more than the given number of links. -/
inductive Leads (d : Directory) (follow : Bool) : Nat → Location → List Step → Place → Prop
  /-- No link is left to follow. -/
  | arrive {links : Nat} {base : Location} {steps : List Step} {place : Place} :
    advance d follow base steps = .done place → Leads d follow links base steps place
  /-- A link is followed, and the walk goes on from the directory it is in. -/
  | link {links : Nat} {base : Location} {steps : List Step} {b : Location} {t : Path}
      {rest : List Step} {place : Place} :
    advance d follow base steps = .followLink b t rest →
      Leads d follow links b (t.steps ++ rest) place → Leads d follow (links + 1) base steps place

theorem leads_iff {follow : Bool} {links : Nat} {place : Place} :
    Leads d follow links base steps place ↔ walk d follow links base steps = .ok place := by
  constructor
  · intro h
    induction h with
    | arrive hstep => rw [walk, hstep]
    | link hstep _ ih =>
      rw [walk, hstep]
      exact ih
  · intro h
    induction links generalizing base steps with
    | zero =>
      rw [walk] at h
      split at h <;> cases h
      exact .arrive ‹_›
    | succ links ih =>
      rw [walk] at h
      split at h
      · cases h
        exact .arrive ‹_›
      · cases h
      · exact .link ‹_› (ih h)

/-! ## Where a stretch of a walk ends -/

/-- A location that can be walked to: there are directories on the way, and at its end. -/
def Passable (d : Directory) (loc : Location) : Prop := ∀ l, l <+: loc → d.find? l = some .directory

theorem passable_nil (d : Directory) : d.Passable [] := by
  intro l hl
  rw [List.prefix_nil.mp hl]
  rfl

theorem Passable.dropLast (h : d.Passable loc) : d.Passable loc.dropLast :=
  fun l hl => h l (hl.trans (List.dropLast_prefix loc))

theorem Passable.append {n : Name} (h : d.Passable loc)
    (hdir : d.find? (loc ++ [n]) = some .directory) : d.Passable (loc ++ [n]) := by
  intro l hl
  rcases List.prefix_concat_iff.mp hl with rfl | hl
  · exact hdir
  · exact h l hl

/-- Whether all that can be passed in one directory can be passed in the other. -/
def KeepsPassable (d d' : Directory) : Prop := ∀ l, d.Passable l → d'.find? l = some .directory

theorem keepsPassable_self (d : Directory) : KeepsPassable d d := fun l hl => hl l List.prefix_rfl

/-- **All that a stretch of a walk can come to**: a directory, an error, or an entry that is no
directory.  It comes to that wherever the directories on the way are the same. -/
theorem advance_cases (hbase : d.Passable base) (steps : List Step) :
    (∃ l, d.find? l = some .directory ∧ ∀ d', KeepsPassable d d' → ∀ follow,
      advance d' follow base steps = .done (.existing l)) ∨
    (∃ e, ∀ d', KeepsPassable d d' → ∀ follow, advance d' follow base steps = .failed e) ∨
    ∃ parent n rest, d.Passable parent ∧ n.length ≤ nameLimit ∧
      d.find? (parent ++ [n]) ≠ some .directory ∧
      ∀ d', KeepsPassable d d' → ∀ follow more,
        advance d' follow base (steps ++ more) =
          advance d' follow parent (.into n :: (rest ++ more)) := by
  have houtside : ∀ rest : List Step,
      (∃ l, d.find? l = some .directory ∧ outside rest = .done (.existing l)) ∨
        ∃ e, outside rest = .failed e := by
    intro rest
    rw [outside]
    split
    · exact .inr ⟨_, rfl⟩
    · exact .inl ⟨[], rfl, rfl⟩
  induction steps generalizing base with
  | nil => exact .inl ⟨base, hbase base List.prefix_rfl, fun _ _ _ => rfl⟩
  | cons step rest ih =>
    cases step with
    | here => exact ih hbase
    | up =>
      simp only [List.cons_append, advance]
      split
      · rcases houtside rest with ⟨l, hl, hout⟩ | ⟨e, hout⟩
        · exact .inl ⟨l, hl, fun _ _ _ => hout⟩
        · exact .inr (.inl ⟨e, fun _ _ _ => hout⟩)
      · exact ih hbase.dropLast
    | top =>
      rcases houtside rest with ⟨l, hl, hout⟩ | ⟨e, hout⟩
      · exact .inl ⟨l, hl, fun _ _ _ => hout⟩
      · exact .inr (.inl ⟨e, fun _ _ _ => hout⟩)
    | into n =>
      by_cases hlong : nameLimit < n.length
      · exact .inr (.inl ⟨.nameTooLong, fun _ _ _ => if_pos hlong⟩)
      by_cases hdir : d.find? (base ++ [n]) = some .directory
      · have hpass := hbase.append hdir
        have hstep : ∀ d', KeepsPassable d d' → ∀ follow more,
            advance d' follow base (.into n :: more) = advance d' follow (base ++ [n]) more := by
          intro d' hkeep follow more
          rw [advance, if_neg hlong, hkeep _ hpass]
        rcases ih hpass with ⟨l, hl, hend⟩ | ⟨e, hend⟩ | ⟨parent, m, rest', hparent, hm, hne, hend⟩
        · exact .inl ⟨l, hl, fun d' h follow => (hstep d' h follow _).trans (hend d' h follow)⟩
        · exact .inr (.inl ⟨e, fun d' h follow => (hstep d' h follow _).trans (hend d' h follow)⟩)
        · exact .inr (.inr ⟨parent, m, rest', hparent, hm, hne, fun d' h follow more =>
            (hstep d' h follow _).trans (hend d' h follow more)⟩)
      · exact .inr (.inr ⟨base, n, rest, hbase, Nat.not_lt.mp hlong, hdir, fun _ _ _ _ => rfl⟩)

/-! ## The entry a walk ends at -/

section

variable {parent : Location} {n : Name} {follow : Bool} {t : Path}

theorem advance_of_none (hlen : n.length ≤ nameLimit) (hnone : d.find? (parent ++ [n]) = none) :
    advance d follow parent (.into n :: rest) =
      if rest = [] then .done (.vacant parent n) else .failed .notFound := by
  rw [advance, if_neg (Nat.not_lt.mpr hlen), hnone]

theorem advance_of_file (hlen : n.length ≤ nameLimit)
    (hfile : d.find? (parent ++ [n]) = some (.file f)) :
    advance d follow parent (.into n :: rest) =
      if rest = [] then .done (.existing (parent ++ [n])) else .failed .notDirectory := by
  rw [advance, if_neg (Nat.not_lt.mpr hlen), hfile]

theorem advance_of_link (hlen : n.length ≤ nameLimit)
    (hlink : d.find? (parent ++ [n]) = some (.link t)) :
    advance d follow parent (.into n :: rest) =
      if rest = [] ∧ follow = false then .done (.existing (parent ++ [n]))
      else .followLink parent t rest := by
  rw [advance, if_neg (Nat.not_lt.mpr hlen), hlink]

/-- What is at an entry of a directory, as the end of a walk. -/
def placeAt (d : Directory) (parent : Location) (n : Name) : Place :=
  match d.find? (parent ++ [n]) with
  | none => .vacant parent n
  | some _ => .existing (parent ++ [n])

theorem advance_last (hlen : n.length ≤ nameLimit)
    (hlink : ∀ t, d.find? (parent ++ [n]) ≠ some (.link t)) :
    advance d follow parent [.into n] = .done (d.placeAt parent n) := by
  rw [placeAt]
  cases hentry : d.find? (parent ++ [n]) with
  | none => rw [advance_of_none hlen hentry, if_pos rfl]
  | some e =>
    cases e with
    | file _ => rw [advance_of_file hlen hentry, if_pos rfl]
    | directory => rw [advance, if_neg (Nat.not_lt.mpr hlen), hentry, advance]
    | link t => exact absurd hentry (hlink t)

/-- **A stretch that arrives at a file** has gone through directories to the file itself. -/
theorem exists_of_advance_file (hbase : d.Passable base)
    (hfile : d.find? target = some (.file f))
    (h : advance d true base steps = .done (.existing target)) :
    ∃ parent n, target = parent ++ [n] ∧ d.Passable parent ∧ n.length ≤ nameLimit ∧
      ∀ d', KeepsPassable d d' → ∀ follow more,
        advance d' follow base (steps ++ more) = advance d' follow parent (.into n :: more) := by
  rcases advance_cases hbase steps with ⟨l, hl, hend⟩ | ⟨e, hend⟩ |
    ⟨parent, n, rest, hparent, hlen, hne, hend⟩
  · rw [hend d (keepsPassable_self d)] at h
    cases h
    rw [hl] at hfile
    cases hfile
  · rw [hend d (keepsPassable_self d)] at h
    cases h
  · have hstep := hend d (keepsPassable_self d) true []
    rw [List.append_nil, List.append_nil, h] at hstep
    cases hentry : d.find? (parent ++ [n]) with
    | none =>
      rw [advance_of_none hlen hentry] at hstep
      split at hstep <;> cases hstep
    | some e =>
      cases e with
      | file g =>
        rw [advance_of_file hlen hentry] at hstep
        split at hstep
        · cases hstep
          subst rest
          exact ⟨parent, n, rfl, hparent, hlen, hend⟩
        · cases hstep
      | directory => exact absurd hentry hne
      | link t => simp [advance_of_link hlen hentry] at hstep

/-- **A stretch that comes to a link** has gone through directories to the link itself. -/
theorem exists_of_advance_link (hbase : d.Passable base)
    (h : advance d true base steps = .followLink parent t rest) :
    ∃ n, d.find? (parent ++ [n]) = some (.link t) ∧ d.Passable parent ∧ n.length ≤ nameLimit ∧
      ∀ d', KeepsPassable d d' → ∀ follow more, advance d' follow base (steps ++ more) =
        advance d' follow parent (.into n :: (rest ++ more)) := by
  rcases advance_cases hbase steps with ⟨l, hl, hend⟩ | ⟨e, hend⟩ |
    ⟨parent', n, rest', hparent, hlen, hne, hend⟩
  · rw [hend d (keepsPassable_self d)] at h
    cases h
  · rw [hend d (keepsPassable_self d)] at h
    cases h
  · have hstep := hend d (keepsPassable_self d) true []
    rw [List.append_nil, List.append_nil, h] at hstep
    cases hentry : d.find? (parent' ++ [n]) with
    | none =>
      rw [advance_of_none hlen hentry] at hstep
      split at hstep <;> cases hstep
    | some e =>
      cases e with
      | file g =>
        rw [advance_of_file hlen hentry] at hstep
        split at hstep <;> cases hstep
      | directory => exact absurd hentry hne
      | link t' =>
        rw [advance_of_link hlen hentry, if_neg (by simp)] at hstep
        cases hstep
        exact ⟨n, hentry, hparent, hlen, hend⟩

end

/-! ## Walks to files -/

/-- **A path that leads to a file leads nowhere with more steps after it.** -/
theorem Leads.not_leads_append {links links' : Nat} {follow : Bool} {place place' : Place}
    (h : Leads d true links base steps place) (hplace : place = .existing target)
    (hfile : d.find? target = some (.file f)) (hbase : d.Passable base) (hrest : rest ≠ []) :
    ¬ Leads d follow links' base (steps ++ rest) place' := by
  induction h generalizing links' with
  | arrive hstep =>
    subst hplace
    obtain ⟨parent, n, rfl, -, hlen, hend⟩ := exists_of_advance_file hbase hfile hstep
    intro h
    have hfail := hend d (keepsPassable_self d) follow rest
    rw [advance_of_file hlen hfile, if_neg hrest] at hfail
    cases h with
    | arrive hstep =>
      rw [hfail] at hstep
      cases hstep
    | link hstep =>
      rw [hfail] at hstep
      cases hstep
  | link hstep _ ih =>
    obtain ⟨n, hlink, hparent, hlen, hend⟩ := exists_of_advance_link hbase hstep
    intro h
    have hnext := hend d (keepsPassable_self d) follow rest
    rw [advance_of_link hlen hlink, if_neg (by simp [hrest])] at hnext
    cases h with
    | arrive hstep =>
      rw [hnext] at hstep
      cases hstep
    | link hstep hleads =>
      rw [hnext] at hstep
      cases hstep
      rw [← List.append_assoc] at hleads
      exact ih hplace hparent hleads

/-- **Only one entry differs**, which was no directory, and what is below it. -/
structure AgreeOff (d d' : Directory) (loc : Location) : Prop where
  ne_directory : d.find? loc ≠ some .directory
  find?_eq : ∀ l, ¬ loc <+: l → d'.find? l = d.find? l

namespace AgreeOff

variable (h : AgreeOff d d' loc)
include h

theorem keepsPassable : KeepsPassable d d' := by
  intro l hl
  rw [h.find?_eq l fun hpre => h.ne_directory (hl loc hpre)]
  exact hl l List.prefix_rfl

/-- The other entries of a directory that can be passed are the same. -/
theorem find?_append {parent : Location} {n : Name} (hparent : d.Passable parent)
    (hne : parent ++ [n] ≠ loc) : d'.find? (parent ++ [n]) = d.find? (parent ++ [n]) := by
  refine h.find?_eq _ fun hpre => ?_
  rcases List.prefix_concat_iff.mp hpre with heq | hpre
  · exact hne heq.symm
  · exact h.ne_directory (hparent loc hpre)

end AgreeOff

/-- **A walk to a file ends at one entry**, the file itself or a link that leads to it, and it ends
there still when this entry is replaced or taken away.  The links on the way are other entries, as
they lead to directories and not to a file. -/
theorem Leads.exists_entry {links : Nat} {place : Place} (h : Leads d true links base steps place)
    (hplace : place = .existing target) (hfile : d.find? target = some (.file f))
    (hbase : d.Passable base) :
    ∃ parent n, Leads d false links base steps (.existing (parent ++ [n])) ∧
      (parent ++ [n] = target ∨ ∃ t k, d.find? (parent ++ [n]) = some (.link t) ∧
        Leads d true k parent t.steps (.existing target)) ∧
      ∀ d', AgreeOff d d' (parent ++ [n]) → (∀ t, d'.find? (parent ++ [n]) ≠ some (.link t)) →
        ∀ follow, Leads d' follow links base steps (d'.placeAt parent n) := by
  induction h with
  | arrive hstep =>
    subst hplace
    obtain ⟨parent, n, rfl, -, hlen, hend⟩ := exists_of_advance_file hbase hfile hstep
    refine ⟨parent, n, .arrive ?_, .inl rfl, fun d' hagree hlink follow => .arrive ?_⟩
    · have hlast := hend d (keepsPassable_self d) false []
      rwa [List.append_nil, advance_of_file hlen hfile, if_pos rfl] at hlast
    · have hlast := hend d' hagree.keepsPassable follow []
      rwa [List.append_nil, advance_last hlen hlink] at hlast
  | @link _ base steps b t rest _ hstep hleads ih =>
    obtain ⟨n, hlink, hb, hlen, hend⟩ := exists_of_advance_link hbase hstep
    have hnext : ∀ d', KeepsPassable d d' → ∀ follow,
        advance d' follow base steps = advance d' follow b (.into n :: rest) := by
      intro d' hkeep follow
      have := hend d' hkeep follow []
      rwa [List.append_nil, List.append_nil] at this
    by_cases hrest : rest = []
    · subst hrest
      rw [List.append_nil] at hleads
      refine ⟨b, n, .arrive ?_, .inr ⟨t, _, hlink, hplace ▸ hleads⟩,
        fun d' hagree hlink' follow => .arrive ?_⟩
      · rw [hnext d (keepsPassable_self d), advance_of_link hlen hlink, if_pos ⟨rfl, rfl⟩]
      · rw [hnext d' hagree.keepsPassable, advance_last hlen hlink']
    · obtain ⟨parent, m, hfalse, hentry, hchange⟩ := ih hplace hb
      refine ⟨parent, m, .link ?_ hfalse, hentry, fun d' hagree hlink' follow =>
        .link ?_ (hchange d' hagree hlink' follow)⟩
      · rw [hnext d (keepsPassable_self d), advance_of_link hlen hlink, if_neg (by simp [hrest])]
      · have hne : b ++ [n] ≠ parent ++ [m] := by
          intro heq
          obtain ⟨rfl, -⟩ := List.append_inj' heq rfl
          rcases hentry with htarget | ⟨t', k, hlink', hfollow⟩
          · rw [heq, htarget, hfile] at hlink
            cases hlink
          · rw [← heq, hlink] at hlink'
            cases hlink'
            exact hfollow.not_leads_append rfl hfile hb hrest (hplace ▸ hleads)
        have hlink'' := (hagree.find?_append hb hne).trans hlink
        rw [hnext d' hagree.keepsPassable, advance_of_link hlen hlink'', if_neg (by simp [hrest])]

end Directory

end Delog

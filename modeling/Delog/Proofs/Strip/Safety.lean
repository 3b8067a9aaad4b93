import Delog.Proofs.Strip.Outcome

/-!
# Proofs/Strip/Safety — what can go wrong in stripping a source

Faulty code is refused before anything else happens to it.  In a well-formed tree without faults the
ranges to remove are sound, and stay so until it is their turn, so that only the check of the result
is left to fail.

* `exists_strip_eq_parse_iff` — which sources are refused, whatever the marks of their trees
* `strip_faulty` — code with a syntax error is refused
* `strip_wellFormed` — the ranges of a well-formed source are always removed
-/

namespace Delog.Stripper

open Text Node

variable {s : Stripper} {source : Text} {name : String} {trees : Trees}

/-! ## Faulty code -/

/-- **Which sources are refused**, whatever the marks of their trees: those in which the root and
all nodes above some fault are marked. -/
theorem exists_strip_eq_parse_iff :
    (∃ position detail, s.strip source name trees = .error (.parse name position detail)) ↔
      trees.source.info.hasError = true ∧
        ∃ x ∈ trees.source.sites, x.node.isFaulty = true ∧
          ∀ n ∈ x.ancestors, n.info.hasError = true := by
  rw [← @isSome_firstFault_iff source]
  cases hfault : trees.source.firstFault source with
  | some f => exact iff_of_true ⟨_, _, (strip_of_firstFault hfault).2⟩ rfl
  | none =>
    refine iff_of_false ?_ Bool.false_ne_true
    rintro ⟨position, detail, h⟩
    rcases strip_cases s source name trees with ⟨_, hsome, -⟩ | ⟨-, -, hs⟩ | ⟨_, -, hs⟩ |
      ⟨_, _, -, -, hs⟩ | ⟨_, -, -, -, hs⟩
    · rw [hfault] at hsome
      cases hsome
    all_goals
      rw [hs] at h
      cases h

/-- **Code with a syntax error is refused**, by the search for ranges as by the removal, and does
not pass as free of errors. -/
theorem strip_faulty (hmarked : trees.source.IsMarked)
    (hfaulty : ∃ n ∈ trees.source.preorder, n.isFaulty = true) :
    ∃ position detail,
      s.findRemovals source name trees.source = .error (.parse name position detail) ∧
        s.strip source name trees = .error (.parse name position detail) ∧
        checkSource source trees.source = .error (.atFault position detail) := by
  obtain ⟨f, hf⟩ :=
    Option.isSome_iff_exists.mp (isSome_firstFault_of_isMarked hmarked hfaulty source)
  refine ⟨f.position, f.defect.message, (strip_of_firstFault hf).1, (strip_of_firstFault hf).2, ?_⟩
  rw [checkSource, hf]
  rfl

theorem sample_strip_faulty :
    (∃ n ∈ Sample.faulty.preorder, n.isFaulty = true) ∧
      ∃ position detail, (Stripper.new .default).strip Sample.source "a.ts" ⟨Sample.faulty, none⟩
        = .error (.parse "a.ts" position detail) := by
  have hmarked : Sample.faulty.IsMarked := by decide
  have hfaulty : ∃ n ∈ Sample.faulty.preorder, n.isFaulty = true := by decide
  obtain ⟨position, detail, -, hstrip, -⟩ :=
    @strip_faulty (.new .default) Sample.source "a.ts" ⟨Sample.faulty, none⟩ hmarked hfaulty
  exact ⟨hfaulty, position, detail, hstrip⟩

/-! ## Well-formed code without faults -/

/-- **Just the sources in which nothing logs are left alone.** -/
private theorem strip_eq_unchanged_iff (hclean : ∀ n ∈ trees.source.preorder, n.isFaulty = false) :
    s.strip source name trees = .ok .unchanged ↔
      ∀ n ∈ trees.source.preorder, n.isLogging source s.options.loggingObject = false := by
  have hfault := firstFault_eq_none hclean source
  have hnil : trees.source.removals source s.options.loggingObject = [] ↔
      ∀ n ∈ trees.source.preorder, n.isLogging source s.options.loggingObject = false := by
    rw [removals_eq_nil_iff, loggingStatements, List.filter_eq_nil_iff]
    simp only [Bool.not_eq_true]
  rw [← hnil]
  refine ⟨fun h => ?_, strip_of_removals_eq_nil hfault⟩
  rcases strip_cases s source name trees with ⟨_, -, hs⟩ | ⟨-, hnil, -⟩ | ⟨_, -, hs⟩ |
    ⟨_, _, -, -, hs⟩ | ⟨_, -, -, -, hs⟩
  case inr.inl => exact hnil
  all_goals
    rw [hs] at h
    cases h

/-- **There is no fault of editing** in a well-formed source. -/
private theorem strip_ne_internal_edit (hroot : trees.source.WellFormed source) (name' : String)
    (e : EditError) : s.strip source name trees ≠ .error (.internal name' (.edit e)) := by
  intro h
  rcases strip_cases s source name trees with ⟨_, -, hs⟩ | ⟨-, -, hs⟩ | ⟨_, herror, -⟩ |
    ⟨_, _, -, -, hs⟩ | ⟨_, -, -, -, hs⟩
  case inr.inr.inl =>
    by_cases hnil : trees.source.removals source s.options.loggingObject = []
    · rw [hnil] at herror
      cases herror
    · obtain ⟨q, -, hedit, -⟩ :=
        Removal.exists_edit hroot.solidIn_of_mem_removals hroot.pairwise_removals hnil
      rw [hedit] at herror
      cases herror
  all_goals
    rw [hs] at h
    cases h

/-- **A source in which something logs is edited**, and the check of the text decides. -/
private theorem exists_edit_of_isLogging (hroot : trees.source.WellFormed source)
    (hclean : ∀ n ∈ trees.source.preorder, n.isFaulty = false)
    (hlog : ∃ n ∈ trees.source.preorder, n.isLogging source s.options.loggingObject = true) :
    ∃ text,
      edit source (trees.source.removals source s.options.loggingObject) = .ok text ∧
      (trees.result.bind (firstFault text) = none →
        s.strip source name trees = .ok (.modified text
          (trees.source.removals source s.options.loggingObject).length)) ∧
      ∀ f, trees.result.bind (firstFault text) = some f →
        s.strip source name trees = .error (.internal name (.parser (.ofFault f))) := by
  have hfault := firstFault_eq_none hclean source
  have hne : trees.source.removals source s.options.loggingObject ≠ [] := by
    rw [ne_eq, removals_eq_nil_iff, loggingStatements, List.filter_eq_nil_iff]
    obtain ⟨n, hn, hlog⟩ := hlog
    exact fun hnone => hnone n hn hlog
  obtain ⟨q, -, hedit, -⟩ :=
    Removal.exists_edit hroot.solidIn_of_mem_removals hroot.pairwise_removals hne
  refine ⟨Removal.tidy source q, hedit, fun hresult => ?_, fun f hresult => ?_⟩
  · rw [strip_of_removals_ne_nil hfault hne, hedit]
    simp only [hresult]
  · rw [strip_of_removals_ne_nil hfault hne, hedit]
    simp only [hresult]

/-- **A well-formed source without faults is always stripped.**  The ranges pass the check, and a
range still to come keeps its offsets and its text; there is no fault of editing.  The source stands
as it is just when nothing logs; otherwise it is modified, unless a fault is found in the text it
comes to. -/
theorem strip_wellFormed (hroot : trees.source.WellFormed source)
    (hclean : ∀ n ∈ trees.source.preorder, n.isFaulty = false) :
    Removal.fault source
        (Removal.sortDescending (trees.source.removals source s.options.loggingObject)) = none ∧
      (∀ done pending,
        Removal.sortDescending (trees.source.removals source s.options.loggingObject) =
          done ++ pending →
        ∃ t, Removal.runAll source done = .ok t ∧ ∀ r ∈ pending, r.stop ≤ size t ∧
          isBoundary t r.start = true ∧ isBoundary t r.stop = true ∧
          t.slice r.span = source.slice r.span) ∧
      (∀ name' e, s.strip source name trees ≠ .error (.internal name' (.edit e))) ∧
      (s.strip source name trees = .ok .unchanged ↔
        ∀ n ∈ trees.source.preorder, n.isLogging source s.options.loggingObject = false) ∧
      ((∃ n ∈ trees.source.preorder, n.isLogging source s.options.loggingObject = true) →
        ∃ text,
          edit source (trees.source.removals source s.options.loggingObject) = .ok text ∧
          (trees.result.bind (firstFault text) = none →
            s.strip source name trees = .ok (.modified text
              (trees.source.removals source s.options.loggingObject).length)) ∧
          ∀ f, trees.result.bind (firstFault text) = some f →
            s.strip source name trees = .error (.internal name (.parser (.ofFault f)))) := by
  have hsolid : ∀ r ∈ trees.source.removals source s.options.loggingObject, r.SolidIn source :=
    hroot.solidIn_of_mem_removals
  have hpair : (trees.source.removals source s.options.loggingObject).Pairwise
      fun a b => a.stop ≤ b.start := hroot.pairwise_removals
  exact ⟨Removal.fault_sortDescending_eq_none hsolid hpair,
    fun _ _ hsplit => Removal.slice_pending hsolid hpair hsplit,
    strip_ne_internal_edit hroot, strip_eq_unchanged_iff hclean,
    exists_edit_of_isLogging hroot hclean⟩

theorem sample_strip_wellFormed :
    Removal.fault Sample.source
        (Removal.sortDescending (Sample.root.removals Sample.source "console")) = none ∧
      (∃ n ∈ Sample.root.preorder, n.isLogging Sample.source "console" = true) ∧
      edit Sample.source (Sample.root.removals Sample.source "console") = .ok Sample.text := by
  have hclean : ∀ n ∈ Sample.trees.source.preorder, n.isFaulty = false := by decide
  have hlog : ∃ n ∈ Sample.trees.source.preorder, n.isLogging Sample.source "console" = true := by
    decide
  obtain ⟨hfault, -, -, -, hmodified⟩ :=
    @strip_wellFormed (.new .default) Sample.source "a.ts" Sample.trees Sample.wellFormed hclean
  obtain ⟨text, hedit, hstrip, -⟩ := hmodified hlog
  obtain rfl : Sample.text = text := by
    have h := Sample.strip_eq.symm.trans (hstrip rfl)
    injection h with h
    injection h
  exact ⟨hfault, hlog, hedit⟩

end Delog.Stripper

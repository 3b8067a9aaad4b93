import Delog.Proofs.Strip.Outcome
import Delog.Proofs.Text.Position
import Delog.Proofs.Tree.Stack

/-!
# Proofs/Strip/Faults — the syntax errors of a source, and where they are said to be

The search for faults goes by the marks of the parser and stops at each fault.  With the marks that
a parser sets, it comes to all faults that are not part of another one.  The place that is told of a
fault leads back to where it starts.

* `faults_eq_map_faultyAt` — the faults that are reported are the outermost ones
* `faults_outermost` — each of them once and in order, and what they mean for the search for ranges
* `fault_position_leads_back` — their places lead back to their offsets, in the same order
-/

namespace Delog

open Text

namespace Node

/-- **The outermost faults** of a tree, each with its address: the faulty nodes that are not part of
another one. -/
def faultyAt (root : Node) : List (Address × Node) := root.search isFaulty (!isFaulty ·)

theorem mem_faultyAt {root n : Node} {a : Address} :
    (a, n) ∈ root.faultyAt ↔
      root.at? a = some n ∧ n.isFaulty = true ∧
        ∀ b, b <+: a → b ≠ a → ∀ m, root.at? b = some m → m.isFaulty = false := by
  simp [faultyAt, mem_search, AllAbove]

theorem mem_preorder_of_mem_faultyAt {root : Node} {x : Address × Node} (hx : x ∈ root.faultyAt) :
    x.2 ∈ root.preorder := by
  have hmem := List.mem_map_of_mem (f := Prod.snd) hx
  rw [faultyAt, map_node_search, List.mem_map] at hmem
  obtain ⟨y, hy, hnode⟩ := hmem
  exact hnode ▸ node_mem_preorder (List.mem_filter.mp hy).1

/-- **The search for faults as a visit** with a stack. -/
theorem faulty_eq_map_visit (root : Node) :
    root.faulty = (visit isFaulty isSearched [⟨root, [], [], []⟩]).map Site.node := by
  rw [visit_root, faulty_eq_map_filter]

namespace IsMarked

variable {root : Node} (h : root.IsMarked)
include h

/-- **The search for faults comes to the outermost ones.** -/
theorem faulty_eq_map_faultyAt : root.faulty = root.faultyAt.map Prod.snd := by
  rw [faultyAt, map_node_search, faulty_eq_map_filter]
  refine congrArg (List.map Site.node) (List.filter_congr fun x hx => ?_)
  cases hfaulty : x.node.isFaulty with
  | false => rw [Site.isFound, Site.isFound, hfaulty, Bool.false_and, Bool.false_and]
  | true =>
    have hsame : ∀ m ∈ x.ancestors, isSearched m = !m.isFaulty := fun m hm => by
      rw [isSearched, h.hasError_of_mem_ancestors hx hfaulty hm, Bool.true_and]
    rw [Site.isFound, Site.isFound, Bool.eq_iff_iff, Bool.and_eq_true, Bool.and_eq_true,
      List.all_eq_true, List.all_eq_true]
    exact and_congr_right fun _ => forall₂_congr fun m hm => by rw [hsame m hm]

/-- A root without a mark has no faults, so that leaving its tree unsearched misses none. -/
theorem faults_eq_map_faulty (source : Text) :
    root.faults source = root.faulty.map (Fault.ofNode source) := by
  rw [faults]
  split
  · rfl
  · rename_i hmark
    have hnone : root.faulty = [] := by
      have hroot : ¬ root.isFaulty = true := fun hfaulty => hmark (h.hasError_of_isFaulty hfaulty)
      obtain ⟨i, cs⟩ := root
      rw [faulty, if_neg hroot]
      exact if_neg hmark
    rw [hnone, List.map_nil]

/-- **The faults that are reported are the outermost ones.** -/
theorem faults_eq_map_faultyAt (source : Text) :
    root.faults source = root.faultyAt.map fun x => Fault.ofNode source x.2 := by
  rw [h.faults_eq_map_faulty, h.faulty_eq_map_faultyAt, List.map_map]
  rfl

/-- **No fault is reported just when there is none.** -/
theorem firstFault_eq_none_iff (source : Text) :
    root.firstFault source = none ↔ ∀ n ∈ root.preorder, n.isFaulty = false := by
  refine ⟨fun hnone => ?_, fun hclean => firstFault_eq_none hclean source⟩
  by_contra hfaulty
  have hsome := isSome_firstFault_of_isMarked h (by simpa using hfaulty) source
  rw [hnone] at hsome
  cases hsome

end IsMarked

/-- **The outermost faults of an orderly tree are apart**, one after the other. -/
theorem Orderly.pairwise_faultyAt {root : Node} (h : root.Orderly)
    (hspan : ∀ n ∈ root.preorder, n.span.start ≤ n.span.stop) :
    root.faultyAt.Pairwise fun x y =>
      x.2.span.start ≤ y.2.span.start ∧ x.2.span.stop ≤ y.2.span.start := by
  refine (h.pairwise_span_search isFaulty).imp_of_mem fun {x y} hx _ hxy => ⟨?_, hxy⟩
  exact (hspan x.2 (mem_preorder_of_mem_faultyAt hx)).trans hxy

/-- **Whether a source is refused for a syntax error** depends on whether one is found. -/
theorem exists_findRemovals_eq_parse_iff {source : Text} {root : Node} (s : Stripper)
    (name : String) :
    (∃ src position detail,
      s.findRemovals source name root = .error (.parse src position detail)) ↔
      root.firstFault source ≠ none := by
  rw [Stripper.findRemovals]
  cases root.firstFault source <;> simp

/-- **The syntax errors that are reported**, in an orderly tree with the marks of a parser.  A visit
of the tree with a stack comes to them, which looks below marked nodes only and not below a fault.
They are the faults that are not part of another one, each once and in pre-order, one after the
other in the source.  The first of them is the first syntax error; there is none just when the tree
has no fault, and the search for ranges fails for a syntax error just when there is one. -/
theorem faults_outermost {root : Node} (horderly : root.Orderly)
    (hspan : ∀ n ∈ root.preorder, n.span.start ≤ n.span.stop) (hmarked : root.IsMarked)
    (source : Text) (s : Stripper) (name : String) :
    root.faulty = (visit isFaulty isSearched [⟨root, [], [], []⟩]).map Site.node ∧
      root.faults source = root.faultyAt.map (fun x => Fault.ofNode source x.2) ∧
      (∀ a n, (a, n) ∈ root.faultyAt ↔
        root.at? a = some n ∧ n.isFaulty = true ∧
          ∀ b, b <+: a → b ≠ a → ∀ m, root.at? b = some m → m.isFaulty = false) ∧
      (root.faultyAt.Pairwise fun x y => x.1 < y.1) ∧
      ((root.faults source).Pairwise fun f g =>
        f.span.start ≤ g.span.start ∧ f.span.stop ≤ g.span.start) ∧
      root.firstFault source = (root.faults source).head? ∧
      (root.firstFault source = none ↔ ∀ n ∈ root.preorder, n.isFaulty = false) ∧
      ((∃ src position detail,
        s.findRemovals source name root = .error (.parse src position detail)) ↔
        root.firstFault source ≠ none) := by
  refine ⟨faulty_eq_map_visit root, hmarked.faults_eq_map_faultyAt source,
    fun _ _ => mem_faultyAt, pairwise_search root, ?_, rfl,
    hmarked.firstFault_eq_none_iff source, exists_findRemovals_eq_parse_iff s name⟩
  rw [hmarked.faults_eq_map_faultyAt, List.pairwise_map]
  exact horderly.pairwise_faultyAt hspan

end Node

namespace Sample

/-- A node of the grammar that has an error below it, or is marked as if it had. -/
def marked (kind : String) (start stop : Nat) (children : List Node) : Node :=
  .mk ⟨kind, true, false, false, false, true, ⟨start, stop⟩, none⟩ children

/-- A source with a parenthesis missing and, after letters of two bytes, a stray `%`. -/
def brokenSource : Text := "é(;\r\n ü%b\n".toList

/-- The tree of the source: one of its errors is part of another one, and one node without errors is
marked. -/
def broken : Node :=
  marked "program" 0 12
    [marked "expression_statement" 0 4
      [marked "call_expression" 0 3
        [node "identifier" 0 2 none [],
          marked "arguments" 2 3 [.mk ⟨")", false, false, false, true, false, ⟨3, 3⟩, none⟩ []]]],
      marked "expression_statement" 7 11
        [marked "identifier" 7 9 [],
          .mk ⟨"ERROR", true, false, true, false, true, ⟨9, 10⟩, none⟩
            [.mk ⟨"ERROR", true, false, true, false, false, ⟨9, 10⟩, none⟩ []]]]

/-- The missing parenthesis, as it is reported. -/
def missingFault : Fault := ⟨⟨3, 3⟩, ⟨1, 3⟩, .missing ")"⟩

/-- The stray character, as it is reported. -/
def strayFault : Fault := ⟨⟨9, 10⟩, ⟨2, 3⟩, .unexpected ['%']⟩

theorem faults_broken : broken.faults brokenSource = [missingFault, strayFault] := by decide

theorem sample_faults_outermost :
    broken.Orderly ∧ (∀ n ∈ broken.preorder, n.span.start ≤ n.span.stop) ∧ broken.IsMarked ∧
      broken.faultyAt.map (fun x => Fault.ofNode brokenSource x.2) = [missingFault, strayFault] ∧
      (∃ n ∈ broken.preorder, n.isFaulty = true) ∧
      ∃ src position detail, (Stripper.new .default).findRemovals brokenSource "a.ts" broken =
        .error (.parse src position detail) := by
  have horderly : broken.Orderly := by decide
  have hspan : ∀ n ∈ broken.preorder, n.span.start ≤ n.span.stop := by decide
  have hmarked : broken.IsMarked := by decide
  have hfaulty : ∃ n ∈ broken.preorder, n.isFaulty = true := by decide
  obtain ⟨-, hfaults, -, -, -, hfirst, -, hparse⟩ :=
    Node.faults_outermost horderly hspan hmarked brokenSource (.new .default) "a.ts"
  refine ⟨horderly, hspan, hmarked, hfaults.symm.trans faults_broken, hfaulty, hparse.mpr ?_⟩
  rw [hfirst, faults_broken]
  exact Option.some_ne_none missingFault

end Sample

/-! ## Places -/

namespace Node

/-- The place of a syntax error is that of its start. -/
theorem position_of_mem_faults {source : Text} {root : Node} {f : Fault}
    (hf : f ∈ root.faults source) : f.position = source.position f.span.start := by
  rw [faults, List.mem_ite_nil_right, List.mem_map] at hf
  obtain ⟨-, n, -, rfl⟩ := hf
  rfl

/-- **The place that is told of a syntax error leads back to it**, if the error starts between two
characters.  Errors that start at different offsets are told to be at different places, and they are
in the order of their places, be they of one tree of the source or of two.  The place that a refusal
tells is that of the first error. -/
theorem fault_position_leads_back {source : Text} {root root' : Node} {f g : Fault}
    (hf : f ∈ root.faults source) (hg : g ∈ root'.faults source)
    (hfstart : isBoundary source f.span.start = true)
    (hgstart : isBoundary source g.span.start = true) :
    source.offset? f.position = some f.span.start ∧
      (f.span.start ≠ g.span.start → f.position ≠ g.position) ∧
      (f.position.key < g.position.key ↔ f.span.start < g.span.start) ∧
      (root.firstFault source = some f → ∀ (s : Stripper) (name : String),
        s.findRemovals source name root = .error (.parse name f.position f.defect.message)) := by
  rw [position_of_mem_faults hf, position_of_mem_faults hg]
  refine ⟨offset?_position hfstart, fun hne heq => hne ?_, key_position_lt_iff hfstart hgstart,
    fun hfirst s name => ?_⟩
  · have hoffset := congrArg source.offset? heq
    rw [offset?_position hfstart, offset?_position hgstart] at hoffset
    exact Option.some.inj hoffset
  · rw [Stripper.findRemovals, hfirst, ← position_of_mem_faults hf]

end Node

namespace Sample

/-- The places of the two errors at hand lead back to the third byte and to the ninth, with the
letters before them of one byte or two. -/
theorem sample_fault_position :
    missingFault ∈ broken.faults brokenSource ∧ strayFault ∈ broken.faults brokenSource ∧
      brokenSource.offset? ⟨2, 3⟩ = some 9 ∧ brokenSource.offset? ⟨1, 3⟩ = some 3 ∧
      missingFault.position.key < strayFault.position.key := by
  have hmissing : missingFault ∈ broken.faults brokenSource := by
    rw [faults_broken]
    exact List.mem_cons_self
  have hstray : strayFault ∈ broken.faults brokenSource := by
    rw [faults_broken]
    exact List.mem_cons_of_mem _ List.mem_cons_self
  have hmissingStart : isBoundary brokenSource missingFault.span.start = true := by decide
  have hstrayStart : isBoundary brokenSource strayFault.span.start = true := by decide
  obtain ⟨hfirst, -, horder, -⟩ :=
    Node.fault_position_leads_back hmissing hstray hmissingStart hstrayStart
  obtain ⟨hsecond, -⟩ := Node.fault_position_leads_back hstray hmissing hstrayStart hmissingStart
  exact ⟨hmissing, hstray, hsecond, hfirst, horder.mpr (by decide)⟩

end Sample

end Delog

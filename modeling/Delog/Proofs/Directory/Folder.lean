import Delog.Proofs.Directory.Names

/-!
# Proofs/Directory/Folder — the directory in which a path names an entry

A path that names a file ends in a name.  The path without it leads to the directory that has the
named entry in it, with all links on the way followed.

* `Path.steps_folder` — the steps of a path are those of its folder, and one to a name
* `Leads.exists_of_append` — a walk along more steps comes through a directory
* `Names.locate_folder` — the folder of a path leads to the directory of the named entry
-/

namespace Delog

/-! ## Paths and their parts -/

namespace Path

theorem parts_ne_nil : ∀ p : Path, parts p ≠ []
  | [] => List.cons_ne_nil _ _
  | b :: bs => by
    rw [parts]
    split
    · exact List.cons_ne_nil _ _
    · split <;> exact List.cons_ne_nil _ _

theorem parts_cons {b : UInt8} (hb : b ≠ slash) (bs : Path) :
    ∃ n ns, parts bs = n :: ns ∧ parts (b :: bs) = (b :: n) :: ns := by
  obtain ⟨n, ns, hparts⟩ := List.exists_cons_of_ne_nil (parts_ne_nil bs)
  exact ⟨n, ns, hparts, by rw [parts, if_neg hb, hparts]⟩

theorem parts_eq_splitOn : ∀ p : Path, parts p = p.splitOn slash
  | [] => rfl
  | b :: bs => by
    rw [List.splitOn_cons_eq_if_modifyHead, ← parts_eq_splitOn bs]
    by_cases hb : b = slash
    · rw [parts, if_pos hb, if_pos (beq_iff_eq.mpr hb)]
    · obtain ⟨n, ns, hbs, hparts⟩ := parts_cons hb bs
      rw [hparts, hbs, if_neg (by simpa using hb)]
      rfl

theorem slash_notMem_of_mem_parts {n : Name} : ∀ {p : Path}, n ∈ parts p → slash ∉ n
  | [], h => by
    obtain rfl := List.mem_singleton.mp h
    exact List.not_mem_nil
  | b :: bs, h => by
    have ih : ∀ m ∈ parts bs, slash ∉ m := fun m => slash_notMem_of_mem_parts
    by_cases hb : b = slash
    · rw [parts, if_pos hb] at h
      rcases List.mem_cons.mp h with rfl | h
      · exact List.not_mem_nil
      · exact ih n h
    · obtain ⟨m, ms, hbs, hparts⟩ := parts_cons hb bs
      rw [hbs] at ih
      rw [hparts] at h
      obtain ⟨hm, hms⟩ := List.forall_mem_cons.mp ih
      rcases List.mem_cons.mp h with rfl | h
      · simp [Ne.symm hb, hm]
      · exact hms n h

/-- A path has the parts it is made of. -/
theorem parts_ofParts {ns : List Name} (hne : ns ≠ []) (h : ∀ n ∈ ns, slash ∉ n) :
    parts (ofParts ns) = ns := by
  rw [parts_eq_splitOn, ofParts, List.splitOn_intercalate slash h hne]

theorem ofParts_parts (p : Path) : ofParts (parts p) = p := by
  rw [parts_eq_splitOn, ofParts, List.intercalate_splitOn]

theorem ofParts_append {as bs : List Name} (ha : as ≠ []) (hb : bs ≠ []) :
    ofParts (as ++ bs) = ofParts as ++ slash :: ofParts bs := by
  obtain ⟨b, bs, rfl⟩ := List.exists_cons_of_ne_nil hb
  induction as with
  | nil => exact absurd rfl ha
  | cons a as ih =>
    cases as with
    | nil => simp [ofParts, List.intercalate_cons_cons]
    | cons a' as =>
      have htail := ih (List.cons_ne_nil a' as)
      simp only [ofParts, List.cons_append, List.intercalate_cons_cons] at htail ⊢
      simp only [htail, List.append_assoc]

theorem ofPart_of_isHere {n : Name} (h : isHere n = true) : Step.ofPart n = .here :=
  if_pos (of_decide_eq_true h)

/-- A part that makes a step to a name is that name. -/
theorem ofPart_of_isNamed {n : Name} (h : (Step.ofPart n).isNamed = true) :
    isHere n = false ∧ Step.ofPart n = .into n := by
  by_cases hhere : n = [] ∨ n = [dot]
  · rw [Step.ofPart, if_pos hhere] at h
    cases h
  · refine ⟨decide_eq_false hhere, ?_⟩
    rw [Step.ofPart, if_neg hhere] at h ⊢
    split at h
    · cases h
    · exact if_neg ‹_›

/-- A path that does not start at the top has a step for each part. -/
theorem steps_eq_map {p : Path} {first : Name} {rest : List Name} (hparts : parts p = first :: rest)
    (hfirst : first ≠ []) : p.steps = (first :: rest).map Step.ofPart := by
  rw [steps, hparts]
  split
  · rename_i heq
    exact absurd (List.cons.inj heq).1 hfirst
  · rfl

/-- **The steps of a path** of several parts, which ends in a name, are those of its folder, some
that lead no further, and the one to the name. -/
theorem steps_folder {p : Path} {first n : Name} {body : List Name}
    (hparts : parts p = first :: (body ++ [n])) (hfirst : first ≠ []) (hn : isHere n = false) :
    (∃ r, p = folder p ++ slash :: r) ∧ folder p ≠ [] ∧ ∃ heres : List Name,
      (∀ m ∈ heres, isHere m = true) ∧
        p.steps = (folder p).steps ++ (heres.map Step.ofPart ++ [Step.ofPart n]) := by
  let kept := (body.reverse.dropWhile isHere).reverse
  let heres := (body.reverse.takeWhile isHere).reverse
  have hbody : kept ++ heres = body := by
    rw [← List.reverse_append, List.takeWhile_append_dropWhile, List.reverse_reverse]
  have hall : first :: (body ++ [n]) = (first :: kept) ++ (heres ++ [n]) := by
    rw [← hbody, List.cons_append, List.append_assoc]
  have hslash : ∀ m ∈ first :: kept, slash ∉ m := fun m hm =>
    slash_notMem_of_mem_parts (hparts ▸ hall ▸ List.mem_append_left _ hm : m ∈ parts p)
  have hkept : parts (ofParts (first :: kept)) = first :: kept :=
    parts_ofParts (List.cons_ne_nil _ _) hslash
  have hne : ofParts (first :: kept) ≠ [] := by
    intro hnil
    rw [hnil] at hkept
    exact hfirst (List.cons.inj hkept).1.symm
  have hdrop : (body ++ [n]).reverse.dropWhile isHere = n :: body.reverse := by simp [hn]
  have hfolder : folder p = ofParts (first :: kept) := by
    rw [folder, hparts]
    simp only [hdrop]
    split
    · exact absurd ‹_› hne
    · rfl
  refine ⟨⟨ofParts (heres ++ [n]), ?_⟩, hfolder ▸ hne, heres, fun m hm => ?_, ?_⟩
  · rw [hfolder, ← ofParts_append (List.cons_ne_nil _ _) (by simp), ← hall, ← hparts, ofParts_parts]
  · exact List.all_eq_true.mp List.all_takeWhile m (List.mem_reverse.mp hm)
  · rw [hfolder, steps_eq_map hkept hfirst, steps_eq_map hparts hfirst, hall, List.map_append,
      List.map_append, List.map_singleton]

end Path

namespace Directory

variable {d : Directory} {base loc target : Location} {xs ys : List Step} {follow : Bool}
  {place : Place} {links : Nat} {p : Path}

/-! ## Walks through directories -/

/-- **All that the first steps of a longer walk can come to**: a directory, a link, or else an end
that all such walks have. -/
theorem advance_append (hys : ys ≠ []) (hbase : d.Passable base) (xs : List Step) :
    (∃ dir, d.Passable dir ∧ advance d true base xs = .done (.existing dir) ∧
      ∀ follow, advance d follow base (xs ++ ys) = advance d follow dir ys) ∨
    (∃ b t rest, d.Passable b ∧ advance d true base xs = .followLink b t rest ∧
      ∀ follow, advance d follow base (xs ++ ys) = .followLink b t (rest ++ ys)) ∨
    (∀ follow, advance d follow base (xs ++ ys) = .done (.existing [])) ∨
    ∃ e, ∀ follow, advance d follow base (xs ++ ys) = .failed e := by
  have hne : ∀ rest : List Step, rest ++ ys ≠ [] := fun rest hnil =>
    hys (List.append_eq_nil_iff.mp hnil).2
  have houtside : ∀ rest : List Step,
      outside rest = .done (.existing []) ∨ outside rest = .failed .notFound := by
    intro rest
    rw [outside]
    split
    · exact .inr rfl
    · exact .inl rfl
  induction xs generalizing base with
  | nil => exact .inl ⟨base, hbase, rfl, fun _ => rfl⟩
  | cons step rest ih =>
    cases step with
    | here => exact ih hbase
    | up =>
      by_cases hnil : base = []
      · subst hnil
        rcases houtside (rest ++ ys) with hout | hout
        · exact .inr (.inr (.inl fun _ => hout))
        · exact .inr (.inr (.inr ⟨_, fun _ => hout⟩))
      · simp only [List.cons_append, advance, if_neg hnil]
        exact ih hbase.dropLast
    | top =>
      rcases houtside (rest ++ ys) with hout | hout
      · exact .inr (.inr (.inl fun _ => hout))
      · exact .inr (.inr (.inr ⟨_, fun _ => hout⟩))
    | into n =>
      simp only [List.cons_append, advance]
      by_cases hlong : nameLimit < n.length
      · exact .inr (.inr (.inr ⟨.nameTooLong, fun _ => if_pos hlong⟩))
      · simp only [if_neg hlong]
        cases hentry : d.find? (base ++ [n]) with
        | none => exact .inr (.inr (.inr ⟨.notFound, fun _ => if_neg (hne rest)⟩))
        | some e =>
          cases e with
          | directory => exact ih (hbase.append hentry)
          | file f => exact .inr (.inr (.inr ⟨.notDirectory, fun _ => if_neg (hne rest)⟩))
          | link t =>
            refine .inr (.inl ⟨base, t, rest, hbase, by simp, fun _ => ?_⟩)
            exact if_neg fun h => hne rest h.1

/-- **A walk along more steps** comes through a directory, unless it ends where paths from above
do. -/
theorem Leads.exists_of_append (h : Leads d follow links base (xs ++ ys) place) (hys : ys ≠ [])
    (hplace : place ≠ .existing []) (hbase : d.Passable base) :
    ∃ dir k, Leads d true links base xs (.existing dir) ∧ d.Passable dir ∧
      Leads d follow k dir ys place := by
  generalize hsteps : xs ++ ys = steps at h
  induction h generalizing xs with
  | @arrive links base steps place hstep =>
    subst hsteps
    rcases advance_append hys hbase xs with
      ⟨dir, hdir, hxs, heq⟩ | ⟨b, t, rest, -, -, heq⟩ | heq | ⟨e, heq⟩
    · exact ⟨dir, links, .arrive hxs, hdir, .arrive ((heq follow).symm.trans hstep)⟩
    · cases (heq follow).symm.trans hstep
    · cases (heq follow).symm.trans hstep
      exact absurd rfl hplace
    · cases (heq follow).symm.trans hstep
  | @link links base steps b t rest place hstep hleads ih =>
    subst hsteps
    rcases advance_append hys hbase xs with
      ⟨dir, hdir, hxs, heq⟩ | ⟨b', t', rest', hb, hxs, heq⟩ | heq | ⟨e, heq⟩
    · exact ⟨dir, _, .arrive hxs, hdir, .link ((heq follow).symm.trans hstep) hleads⟩
    · cases (heq follow).symm.trans hstep
      obtain ⟨dir, k, hdir, hpass, hrest⟩ := ih hplace hb (List.append_assoc _ _ _)
      exact ⟨dir, k, .link hxs hdir, hpass, hrest⟩
    · cases (heq follow).symm.trans hstep
    · cases (heq follow).symm.trans hstep

/-- **A step to no name** leads to a directory. -/
theorem exists_advance_unnamed {step : Step} (hstep : step.isNamed = false)
    (hbase : d.Passable base) (follow : Bool) :
    ∃ l, advance d follow base [step] = .done (.existing l) ∧ d.find? l = some .directory := by
  cases step with
  | here => exact ⟨base, rfl, hbase base List.prefix_rfl⟩
  | up =>
    rw [advance]
    split
    · exact ⟨[], rfl, rfl⟩
    · exact ⟨_, rfl, hbase.dropLast _ List.prefix_rfl⟩
  | top => exact ⟨[], rfl, rfl⟩
  | into n => cases hstep

/-- The steps that lead no further lead no further. -/
theorem advance_heres (d : Directory) (follow : Bool) (base : Location) {heres : List Name}
    (h : ∀ m ∈ heres, Path.isHere m = true) (ys : List Step) :
    advance d follow base (heres.map Step.ofPart ++ ys) = advance d follow base ys := by
  induction heres with
  | nil => rfl
  | cons m heres ih =>
    obtain ⟨hm, hheres⟩ := List.forall_mem_cons.mp h
    rw [List.map_cons, Path.ofPart_of_isHere hm, List.cons_append, advance, ih hheres]

/-- **A last step to a name** ends at the entry of that name, if links are not followed there. -/
theorem advance_into_false (d : Directory) (dir : Location) (n : Name) :
    advance d false dir [.into n] = .failed .nameTooLong ∨
      advance d false dir [.into n] = .done (d.placeAt dir n) := by
  by_cases hlong : nameLimit < n.length
  · exact .inl (if_pos hlong)
  · have hlen := Nat.not_lt.mp hlong
    refine .inr ?_
    by_cases hlink : ∃ t, d.find? (dir ++ [n]) = some (.link t)
    · obtain ⟨t, ht⟩ := hlink
      rw [advance_of_link hlen ht, if_pos ⟨rfl, rfl⟩, placeAt, ht]
    · exact advance_last hlen fun t ht => hlink ⟨t, ht⟩

/-- A walk to a name is at the entry of that name when it ends. -/
theorem eq_of_leads_into {dir : Location} {n : Name} {k : Nat} (heres : List Name)
    (hheres : ∀ m ∈ heres, Path.isHere m = true)
    (h : Leads d false k dir (heres.map Step.ofPart ++ [.into n]) (.existing loc)) :
    loc = dir ++ [n] := by
  have hend := advance_heres d false dir hheres [.into n]
  rcases advance_into_false d dir n with hfail | hdone
  · cases h with
    | arrive hstep => cases (hend.trans hfail).symm.trans hstep
    | link hstep => cases (hend.trans hfail).symm.trans hstep
  · cases h with
    | arrive hstep =>
      have hplace := (hend.trans hdone).symm.trans hstep
      rw [placeAt] at hplace
      split at hplace <;> cases hplace
      rfl
    | link hstep => cases (hend.trans hdone).symm.trans hstep

namespace Names

variable {file : RegularFile} (h : d.Names p loc target file)
include h

theorem leads_true : Leads d true linkLimit [] p.steps (.existing target) :=
  leads_iff.mpr ((locate_eq_walk h.locate_true d true).symm.trans h.locate_true)

theorem leads_false : Leads d false linkLimit [] p.steps (.existing loc) :=
  leads_iff.mpr ((locate_eq_walk h.locate_false d false).symm.trans h.locate_false)

/-- A path that names a file does not start at the top. -/
theorem exists_parts_eq_cons : ∃ first rest, p.parts = first :: rest ∧ first ≠ [] := by
  obtain ⟨first, rest, hparts⟩ := List.exists_cons_of_ne_nil p.parts_ne_nil
  refine ⟨first, rest, hparts, ?_⟩
  rintro rfl
  cases rest with
  | nil =>
    have hlocate := h.locate_true
    rw [← p.ofParts_parts, hparts] at hlocate
    cases hlocate
  | cons n rest =>
    have hsteps : p.steps = .top :: (n :: rest).map Step.ofPart := by rw [Path.steps, hparts]
    have hleads := h.leads_true
    have hfile := h.find?_target
    rw [hsteps] at hleads
    cases hleads with
    | arrive hstep =>
      rw [advance, outside] at hstep
      split at hstep
      · cases hstep
      · cases hstep
        cases hfile
    | link hstep =>
      rw [advance, outside] at hstep
      split at hstep <;> cases hstep

/-- **A path that names a file ends in a name.** -/
theorem isNamed_last (as : List Name) {n : Name} (hsteps : p.steps = (as ++ [n]).map Step.ofPart) :
    (Step.ofPart n).isNamed = true := by
  have hleads := h.leads_true
  have hfile := h.find?_target
  have hne : Place.existing target ≠ .existing [] := by
    rintro ⟨⟩
    cases hfile
  rw [hsteps, List.map_append, List.map_singleton] at hleads
  obtain ⟨dir, k, -, hdir, hlast⟩ := hleads.exists_of_append (List.cons_ne_nil _ _) hne
    (passable_nil d)
  by_cases hnamed : (Step.ofPart n).isNamed = true
  · exact hnamed
  · obtain ⟨l, hstep, hl⟩ := exists_advance_unnamed (Bool.eq_false_iff.mpr hnamed) hdir true
    cases hlast with
    | arrive h' =>
      cases hstep.symm.trans h'
      rw [hl] at hfile
      cases hfile
    | link h' => cases hstep.symm.trans h'

/-- **The folder of a path** leads to the directory that the named entry is in. -/
theorem locate_folder : ∃ dir n, loc = dir ++ [n] ∧ d.find? dir = some .directory ∧
    d.locate true p.folder = .ok (.existing dir) := by
  obtain ⟨first, rest, hparts, hfirst⟩ := h.exists_parts_eq_cons
  have hsteps := Path.steps_eq_map hparts hfirst
  rcases List.eq_nil_or_concat rest with rfl | ⟨body, n, rfl⟩
  · have hinto := (Path.ofPart_of_isNamed (h.isNamed_last [] hsteps)).2
    have hleads := h.leads_false
    rw [hsteps, List.map_singleton, hinto] at hleads
    refine ⟨[], first, eq_of_leads_into [] (by simp) hleads, rfl, ?_⟩
    rw [Path.folder, hparts]
    rfl
  · rw [List.concat_eq_append] at hparts hsteps
    obtain ⟨hn, hinto⟩ := Path.ofPart_of_isNamed (h.isNamed_last (first :: body) hsteps)
    obtain ⟨⟨r, hprefix⟩, hne, heres, hheres, hfolder⟩ := Path.steps_folder hparts hfirst hn
    have hplace : Place.existing loc ≠ .existing [] := by
      rintro ⟨⟩
      exact h.find?_loc_ne_directory rfl
    have hleads := h.leads_false
    rw [hfolder] at hleads
    obtain ⟨dir, k, hdir, hpass, hlast⟩ := hleads.exists_of_append (by simp) hplace (passable_nil d)
    rw [hinto] at hlast
    refine ⟨dir, n, eq_of_leads_into heres hheres hlast, hpass dir List.prefix_rfl, ?_⟩
    have hpath := (isPath_of_locate h.locate_true).of_isPrefix ⟨_, hprefix.symm⟩ hne
    rw [hpath.locate_eq, leads_iff.mp hdir]

end Names

end Directory

end Delog

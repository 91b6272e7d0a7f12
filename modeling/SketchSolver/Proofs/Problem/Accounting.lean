import SketchSolver.Proofs.Equality.Grouping
import SketchSolver.Proofs.Problem.MainSystem

/-!
# The report accounts for everything

Each parameter of a problem is eliminated, settled by one group or a column of the main
system, and each equation is used up by merging, taken by one group or a row. Tags say which:
`Tally` counts them before a group, and a group takes one free parameter and one free
equation (`Tally.set`). So when a solve succeeds its report adds up (`report_accounts`),
although the counts in it come from different phases: eliminated parameters are counted by
the sizes of the groups of equal parameters, equations solved alone by the numbers of their
groups, and the rest by the Jacobian of the main system.

How many parameters were eliminated is told by the sizes of the groups. That these are the
tags set by merging needs that groups are disjoint and that their members are listed
(`tally_params_merge`). The equations used up are not counted in the report. There may be
more of them than there are eliminated parameters, since a cycle of equations between two
parameters each eliminates one less.

A tally is about a list of tags, so the same lemma serves parameters and equations; they
differ in which tag is reserved. It is kept as long as the number of a group is not the
reserved tag, which is why the number of equations is bounded here. A group above that bound
would be counted among what is eliminated, and the sum would be off.

Of a solve that fails there is no report, and what it leaves in parameters and equations is
the subject of other modules.
-/

namespace SketchSolver

variable {α : Type}

/-! ## Counting tags -/

/-- Whether a tag is the number of a group: something is not free, and it has not been `reserved`
before the first group. -/
def isGroup (reserved tag : Nat) : Bool := tag != 0 && tag != reserved

/-- A thing is free, reserved or taken by a group. -/
theorem length_tags {reserved : Nat} (ne : reserved ≠ 0) (tags : List Nat) :
    tags.length = tags.count 0 + tags.count reserved + tags.countP (isGroup reserved) := by
  induction tags with
  | nil => rfl
  | cons tag tags ih =>
    rw [List.length_cons, List.count_cons, List.count_cons, List.countP_cons, ih]
    by_cases free : tag = 0
    · have kept : (0 == reserved) = false := beq_eq_false_iff_ne.mpr (Ne.symm ne)
      simp only [free, isGroup, kept, bne_self_eq_false, Bool.false_and, BEq.rfl, if_true,
        Bool.false_eq_true, if_false]
      omega
    · by_cases gone : tag = reserved
      · simp only [gone, isGroup, beq_eq_false_iff_ne.mpr ne, bne_self_eq_false, Bool.and_false,
          BEq.rfl, if_true, Bool.false_eq_true, if_false]
        omega
      · simp only [isGroup, beq_eq_false_iff_ne.mpr free, beq_eq_false_iff_ne.mpr gone, bne,
          Bool.not_false, Bool.and_self, Bool.false_eq_true, if_true, if_false]
        omega

/-- The tags before a group: `gone` of them are reserved, and each group before has taken one. -/
structure Tally (reserved gone group : Nat) (tags : List Nat) : Prop where
  gone : tags.count reserved = gone
  taken : tags.countP (isGroup reserved) + 1 = group

namespace Tally

variable {reserved gone group : Nat} {tags : List Nat}

/-- A group takes a free one. -/
theorem set (tally : Tally reserved gone group tags) {i : Nat} (free : tags[i]? = some 0)
    (pos : 0 < group) (bound : group < reserved) :
    Tally reserved gone (group + 1) (tags.set i group) := by
  obtain ⟨bound', zero⟩ := List.getElem?_eq_some_iff.mp free
  have kept : (group == reserved) = false := beq_eq_false_iff_ne.mpr (Nat.ne_of_lt bound)
  have free' : (0 == reserved) = false := beq_eq_false_iff_ne.mpr (by omega)
  have used : isGroup reserved group = true := by
    simp only [isGroup, bne, kept, beq_eq_false_iff_ne.mpr (Nat.ne_of_gt pos), Bool.not_false,
      Bool.and_self]
  refine ⟨?_, ?_⟩
  · rw [List.count_set bound', zero, free', kept]
    exact tally.gone
  · have unused : ¬ isGroup reserved 0 = true := by simp [isGroup]
    rw [List.countP_set bound', zero, if_pos used, if_neg unused, Nat.sub_zero, tally.taken]

/-- What is not gone is free or was taken by a group. -/
theorem length (tally : Tally reserved gone group tags) (ne : reserved ≠ 0) :
    tags.length = tags.count 0 + (group - 1) + gone := by
  have := length_tags ne tags
  have := tally.gone
  have := tally.taken
  omega

/-- Before the first group nothing was taken. -/
theorem first {β : Type} {l : List β} {tag : β → Nat} {out : β → Bool}
    (tags : ∀ x ∈ l, tag x = if out x then reserved else 0) (ne : reserved ≠ 0) :
    Tally reserved (l.countP out) 1 (l.map tag) := by
  refine ⟨?_, ?_⟩
  · rw [List.count, List.countP_map]
    refine List.countP_congr fun x hx => ?_
    show (tag x == reserved) = true ↔ out x = true
    rw [tags x hx, beq_iff_eq]
    split
    next gone => exact iff_of_true rfl gone
    next kept => exact iff_of_false (Ne.symm ne) kept
  · rw [List.countP_map, List.countP_eq_zero.mpr fun x hx => ?_]
    show ¬ isGroup reserved (tag x) = true
    rw [tags x hx]
    split
    next => simp [isGroup]
    next => simp [isGroup]

end Tally

/-! ## Merging starts the count -/

namespace EqualGroup

/-- The members of a group that the representative stands for. -/
def others (g : EqualGroup) : List Int := g.members.erase g.representative

/-- The sizes of groups add up to the number of ids that others stand for. -/
theorem eliminated_eq_length {groups : List EqualGroup}
    (represented : ∀ g ∈ groups, g.representative ∈ g.members) :
    eliminated groups = (groups.flatMap others).length := by
  have sizes : ∀ (groups : List EqualGroup) (n : Nat),
      (∀ g ∈ groups, g.representative ∈ g.members) →
      groups.foldl (fun n g => n + (g.members.length - 1)) n =
        n + (groups.flatMap others).length := by
    intro groups
    induction groups with
    | nil => exact fun n _ => rfl
    | cons g groups ih =>
      intro n represented
      rw [List.foldl_cons, ih _ fun g' hg' => represented g' (List.mem_cons_of_mem g hg'),
        List.flatMap_cons, List.length_append, others,
        List.length_erase_of_mem (represented g List.mem_cons_self), Nat.add_assoc]
  exact (sizes groups 0 represented).trans (Nat.zero_add _)

variable [Zero α] {s : Store α} {equations : EquationList α} {dragged : List Int}
variable {groups : List EqualGroup} {x : Int}

/-- No id is eliminated twice. -/
theorem Classifies.nodup_others (classifies : Classifies s equations dragged groups) :
    (groups.flatMap others).Nodup := by
  refine List.nodup_flatMap.mpr ⟨fun g hg => ?_, classifies.apart.imp fun apart x hx hx' =>
    apart x (List.mem_of_mem_erase hx) (List.mem_of_mem_erase hx')⟩
  exact ((classifies.ascending g hg).imp fun lt => Int.ne_of_lt lt).erase _

/-- An id is eliminated exactly when it is in a group that another one represents. -/
theorem Classifies.mem_others (classifies : Classifies s equations dragged groups) :
    x ∈ groups.flatMap others ↔ ∃ g ∈ groups, x ∈ g.members ∧ x ≠ g.representative := by
  rw [List.mem_flatMap]
  refine exists_congr fun g => and_congr_right fun hg => ?_
  have nodup := (classifies.ascending g hg).imp fun {a b} (lt : a < b) => Int.ne_of_lt lt
  exact (List.Nodup.mem_erase_iff nodup).trans And.comm

end EqualGroup

/-- As many items of a list have one of some different keys as there are keys. -/
theorem countP_mem_keys {β : Type} {l : List β} {key : β → Int} {keys : List Int}
    (injective : (l.map key).Nodup) (nodup : keys.Nodup) (found : ∀ x ∈ keys, ∃ b ∈ l, key b = x) :
    l.countP (fun b => decide (key b ∈ keys)) = keys.length := by
  have same : (l.map key).countP (fun x => decide (x ∈ keys)) = keys.length := by
    rw [List.countP_eq_length_filter]
    refine ((List.perm_ext_iff_of_nodup (injective.filter _) nodup).mpr fun x => ?_).length_eq
    rw [List.mem_filter, decide_eq_true_iff, List.mem_map]
    exact and_iff_right_of_imp fun mem => found x mem
  rw [List.countP_map] at same
  exact same

section Merge

variable [Zero α] {p : Problem α} {s t : Store α} {groups : List EqualGroup}
variable {equations : EquationList α}

/-- **Merging eliminates as many parameters as the groups tell**, and takes none for a group. -/
theorem tally_params_merge (ready : p.Ready s) (fresh : ∀ h ∈ p.params.toList, s.tag h = 0)
    (merged : EqualGroup.merge s p.params p.equations p.dragged = (.ok groups, equations, t)) :
    Tally substitutedTag (EqualGroup.eliminated groups) 1 (p.params.toList.map t.tag) := by
  obtain ⟨rfl, _, rfl⟩ := EqualGroup.merge_ok merged
  have classifies := EqualGroup.classifies_ofPairs s p.equations p.dragged
  have eliminates := EqualGroup.eliminates_ofPairs ready.sorted p.dragged
    (p.equations.toList.filterMap (·.bound? s))
  rw [EqualGroup.eliminated_eq_length classifies.represented,
    ← countP_mem_keys ready.sorted.nodup_keys classifies.nodup_others fun x hx => ?_]
  · refine Tally.first (fun k hk => ?_) (by decide)
    by_cases gone : s.id k ∈ (EqualGroup.ofPairs p.dragged
        (p.equations.toList.filterMap (·.bound? s))).flatMap EqualGroup.others
    · rw [if_pos (decide_eq_true gone)]
      obtain ⟨g, hg, member, ne⟩ := classifies.mem_others.mp gone
      unfold Store.tag
      rw [eliminates.eliminated g hg k hk member ne]
      rfl
    · rw [if_neg fun h => gone (of_decide_eq_true h)]
      unfold Store.tag
      rw [eliminates.kept k fun g hg _ member => Decidable.byContradiction fun ne =>
        gone (classifies.mem_others.mpr ⟨g, hg, member, ne⟩)]
      exact fresh k hk
  · -- every member of a group is mentioned, and so it is listed
    obtain ⟨g, hg, member, _⟩ := classifies.mem_others.mp hx
    obtain ⟨e, he, r, hr, idr⟩ := exists_of_member hg member
    exact ⟨r, ready.listed e he r hr, idr⟩

/-- Merging uses up the differences of two parameters, and takes no equation for a group. -/
theorem tally_equations_merge (free : ∀ e ∈ p.equations.toList, e.tag = 0)
    (merged : EqualGroup.merge s p.params p.equations p.dragged = (.ok groups, equations, t)) :
    Tally usedUpTag (p.equations.toList.countP (·.expr.paramDifference?.isSome)) 1
      (equations.toList.map (·.tag)) := by
  rw [(EqualGroup.merge_ok merged).2.1, List.map_map]
  exact Tally.first (fun e he => Equation.marked_tag (free e he)) (by decide)

end Merge

/-! ## A group takes one of each -/

section Solve

variable [Zero α] {group : Nat} {h : Handle} {s t : Store α} {params : ParamList}

/-- Settling a listed parameter sets one tag of the list. -/
theorem Settles.tags (settles : Settles group h s t) (nodup : params.toList.Nodup)
    (mem : h ∈ params.toList) :
    ∃ i, (params.toList.map s.tag)[i]? = some (s.tag h) ∧
      params.toList.map t.tag = (params.toList.map s.tag).set i group := by
  obtain ⟨i, bound, at'⟩ := List.mem_iff_getElem.mp mem
  refine ⟨i, ?_, List.ext_getElem (by simp) fun j hj hj' => ?_⟩
  · rw [List.getElem?_map, List.getElem?_eq_getElem bound, at']
    rfl
  · rw [List.length_map] at hj
    rw [List.getElem_set, List.getElem_map, List.getElem_map]
    split
    next eq =>
      subst eq
      rw [at', settles.tag_self]
    next ne =>
      refine settles.tag_other fun eq => ne ?_
      exact nodup.getElem_inj_iff.mp (at'.trans eq.symm)

omit [Zero α] in
/-- Tagging an equation sets one tag of the list. -/
theorem EquationList.tags_setTag {equations : EquationList α} {e : Equation α} {id : Int}
    (found : equations.byId? id = some e) (tag : Nat) :
    ∃ i, (equations.toList.map (·.tag))[i]? = some e.tag ∧
      (equations.setTag id tag).toList.map (·.tag) = (equations.toList.map (·.tag)).set i tag := by
  obtain ⟨i, at', eq⟩ := EquationList.setTag_toList found tag
  refine ⟨i, ?_, ?_⟩
  · rw [List.getElem?_map, at']
    rfl
  · rw [eq, List.map_set]

/-- The parameters and the equations of a problem, as they are spread before a group. -/
structure Problem.Tallied (eliminated differences group : Nat) (p : Problem α) (s : Store α) :
    Prop where
  params : Tally substitutedTag eliminated group (p.params.toList.map s.tag)
  equations : Tally usedUpTag differences group (p.equations.toList.map (·.tag))

variable [One α] [Add α] [Sub α] [Mul α] [Div α] [Neg α] [LT α] [BEq α]
variable [DecidableLT α] [Elementary α] {tolerance : α} {eliminated differences : Nat}
variable {p q : Problem α} {e : Equation α} {id : Int} {rough : Bool}

omit [One α] [BEq α] in
/-- A group takes one parameter and one equation. -/
theorem Problem.Tallied.step (tallied : p.Tallied eliminated differences group s)
    (stage : Stage tolerance group p s) (bound : group < substitutedTag)
    (found : p.equations.byId? id = some e) (lone : p.loneUnknown? s e = some h)
    (settles : Settles group h s t) :
    Problem.Tallied eliminated differences (group + 1)
      { p with equations := p.equations.setTag id group } t := by
  obtain ⟨freee, freeh, _⟩ := loneUnknown?_spec stage.ready (IdList.find?_some found).1 lone
  refine ⟨?_, ?_⟩
  · obtain ⟨i, at', eq⟩ := settles.tags stage.ready.sorted.nodup (loneUnknown?_mem lone)
    rw [eq]
    exact tallied.params.set (at'.trans (congrArg some freeh)) stage.pos bound
  · obtain ⟨i, at', eq⟩ := EquationList.tags_setTag found group
    have reserved : group < usedUpTag := Nat.lt_trans bound (by decide)
    show Tally _ _ _ ((p.equations.setTag id group).toList.map (·.tag))
    rw [eq]
    exact tallied.equations.set (at'.trans (congrArg some freee)) stage.pos reserved

variable {groups : List EqualGroup} {equations : EquationList α} {u : Store α} {alone : Nat}

/-- At the main system all parameters and equations were spread over merging, as many groups as are
told, and what is still free. -/
theorem tallied_of_phases (ready : p.Ready s) (few : p.equations.size ≤ 10000)
    (merged : EqualGroup.merge (p.resetScratch s).2 p.params (p.resetScratch s).1.equations
      p.dragged = (.ok groups, equations, t))
    (alones : { p with equations }.solveAlones (p.settings.tolerance rough) t = (.ok alone, q, u)) :
    ∃ group, alone = group - 1 ∧ q.Tallied (EqualGroup.eliminated groups)
      (p.equations.toList.countP (·.expr.paramDifference?.isSome)) group u := by
  obtain ⟨group, last, first, bound, chain⟩ := chain_of_phases ready few merged alones
  have frame := Problem.resetScratch_frame p s
  have free : ∀ e ∈ (p.resetScratch s).1.equations.toList, e.tag = 0 := by
    intro e he
    obtain ⟨e₀, _, rfl⟩ := EquationList.mem_clearTags.mp he
    rfl
  -- a reset clears tags, so the equations between parameters are those that were loaded
  have differences : (p.resetScratch s).1.equations.toList.countP (·.expr.paramDifference?.isSome) =
      p.equations.toList.countP (·.expr.paramDifference?.isSome) := by
    show p.equations.clearTags.toList.countP _ = _
    rw [EquationList.toList_clearTags, List.countP_map]
    rfl
  have start : Problem.Tallied (EqualGroup.eliminated groups)
      (p.equations.toList.countP (·.expr.paramDifference?.isSome)) 1 { p with equations } t :=
    ⟨tally_params_merge (p := (p.resetScratch s).1) (frame.ready ready)
        (fun h mem => (Problem.fresh_resetScratch p s h mem).1) merged,
      differences ▸ tally_equations_merge (p := (p.resetScratch s).1) free merged⟩
  refine ⟨group, last, (chain_solveAlonesFrom (motive := Problem.Tallied
    (EqualGroup.eliminated groups) (p.equations.toList.countP (·.expr.paramDifference?.isSome)))
    (fun stage bound found lone settles tallied => ?_) first bound chain start).2⟩
  exact tallied.step stage bound found lone settles

/-! ## The report -/

/-- The report accounts for each parameter and each equation once, and for each unknown of the main
system. -/
structure Report.Accounts (report : Report) (params : ParamList) (equations : EquationList α) :
    Prop where
  params : params.size = report.unknowns + report.alone + report.eliminated
  equations : equations.size = report.equations + report.alone +
    equations.toList.countP (·.expr.paramDifference?.isSome)
  freedom : report.freedom + report.equations = report.unknowns

variable [LE α] [DecidableLE α]

/-- The report of a ready problem with few equations accounts for these and for its parameters. -/
theorem accounts_of_ready {report : Report} (ready : p.Ready s) (few : p.equations.size ≤ 10000)
    (solved : p.solve rough s = (.ok report, q, t)) : report.Accounts p.params p.equations := by
  have frame := Problem.solve_frame p rough s
  rw [solved] at frame
  obtain ⟨groups, equations, s₁, alone, s₂, j, iterations, s₃, merged, alones, together, _, rfl⟩ :=
    solve_ok solved
  obtain ⟨written, _, ran⟩ := solveTogether_ok together
  obtain ⟨group, rfl, tallied⟩ := tallied_of_phases ready few merged alones
  obtain ⟨columns, rows⟩ := Jacobian.write_ok written
  have unknowns : (q.params.toList.map s₂.tag).count 0 = j.columns.length := by
    rw [columns, ← List.countP_eq_length_filter, List.count, List.countP_map]
    rfl
  have free : (q.equations.toList.map (·.tag)).count 0 = j.rows.length := by
    rw [rows, List.length_map, ← List.countP_eq_length_filter, List.count, List.countP_map]
    rfl
  refine ⟨?_, ?_, Nat.sub_add_cancel (Newton.run_ok ran).1⟩
  · have length := tallied.params.length (by decide)
    rw [unknowns, List.length_map, frame.params] at length
    exact length
  · have length := tallied.equations.length (by decide)
    rw [free, List.length_map] at length
    exact (EquationList.size_of_untagged frame.equations).symm.trans length

/-- **The report of a solve that succeeds accounts for every parameter and every equation**, and no
solve changes anything about a parameter that no equation mentions. -/
theorem report_accounts {problem : Problem α} {s₀ : Store α} {dragged : List Handle}
    (own : OwnIds s₀ (Problem.mentioned equations)) (few : equations.size ≤ 10000)
    (loaded : problem.load s₀ equations dragged = (.ok (), p)) (ids : ∀ h, s.id h = s₀.id h)
    (rough : Bool) :
    (∀ report q t, p.solve rough s = (.ok report, q, t) → report.Accounts p.params equations) ∧
      ∀ h, h ∉ Problem.mentioned equations → (p.solve rough s).2.2.get h = s.get h := by
  obtain ⟨ready, same, _⟩ := Problem.ready_of_loaded own loaded ids
  obtain ⟨params, eq, _, mem⟩ := Problem.load_ok problem own dragged
  refine ⟨fun report q t solved => ?_, fun h unmentioned => ?_⟩
  · subst same
    exact accounts_of_ready ready few solved
  · rw [eq] at loaded
    cases loaded
    exact (Problem.solve_frame _ rough s).store.frame h fun listed => unmentioned ((mem h).mp listed)

end Solve

/-- Four parameters and one that an earlier solve has settled. -/
def spareParam : Store Float :=
  ⟨fourParams.cells.push { id := 5, value := 9, symbol := "v", known := true, tag := 3 }⟩

/-- Of four parameters and three equations each is accounted for, after an earlier solve. -/
theorem report_accounts_pinnedSum : ∃ p report q t,
    ({ settings := Settings.standard } : Problem Float).load spareParam pinnedSum [⟨0⟩] =
      (.ok (), p) ∧
    p.solve false spareParam = (.ok report, q, t) ∧
    (report.unknowns, report.alone, report.eliminated, report.equations) = (2, 1, 1, 1) ∧
    report.Accounts p.params pinnedSum ∧ t.get ⟨4⟩ = spareParam.get ⟨4⟩ := by
  have own : OwnIds spareParam (Problem.mentioned pinnedSum) :=
    ⟨by decide +kernel, by decide +kernel⟩
  obtain ⟨params, loaded, _⟩ := Problem.load_ok { settings := Settings.standard } own [⟨0⟩]
  have counts : ((({ settings := Settings.standard } : Problem Float).load spareParam pinnedSum
      [⟨0⟩]).2.solve false spareParam).1.toOption.map
        (fun r => (r.unknowns, r.alone, r.eliminated, r.equations)) = some (2, 1, 1, 1) := by
    decide +kernel
  rw [loaded] at counts
  obtain ⟨report, q, t, solved, counts⟩ := Problem.solve_of_toOption counts
  have few : pinnedSum.size ≤ 10000 := by decide
  obtain ⟨accounts, still⟩ := report_accounts own few loaded (fun _ => rfl) false
  have still := still ⟨4⟩ (by decide +kernel)
  rw [solved] at still
  exact ⟨_, report, q, t, loaded, solved, counts, accounts report q t solved, still⟩

end SketchSolver

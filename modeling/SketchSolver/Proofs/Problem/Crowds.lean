import SketchSolver.Proofs.Problem.Isolation

/-!
# Crowds

In a crowd (`crowd`) two parameters are equal and many others are fixed by an equation each.
All equations hold from the start, so a solve makes group after group without a step
(`groupAt?_crowd`), and numbers run up to the tag of what is eliminated. The group that gets
this number takes in the parameter that merging has eliminated (`exists_crowded_group`): it
has a column too many (`not_isolated_crowd`), and where only one unknown is allowed the solve
fails there (`solve_crowd`).

This is the case that bounds on the number of equations exclude elsewhere, and it takes some
ten thousand equations to reach it. No evaluation could check it, so the run is followed by
proof: `Queued` says that a number of equations wait, each of them holding already and
mentioning one parameter of its own, and a group takes the first of them off the queue. All
that is particular to crowds is to show that merging leaves the queue in that state
(`queued_crowd`), and to count.

Merging takes the difference of the first two parameters as its only equation between
parameters (`difference_crowd`). One of the two is eliminated, the other one represents it,
and nothing else is touched. In particular the tag that stands for elimination is carried by
one listed parameter, and that is all the later collision needs.

Values are floating-point zeros, and equations are single parameters, so that a residual is
the value itself and nothing has to be known about arithmetic.
-/

namespace SketchSolver

open SketchSolver.Expr (standIn)

/-- Parameters that are all zero. -/
def zeros (n : Nat) : Store Float :=
  ⟨((List.range n).map fun i => { id := i + 1, value := 0, symbol := "x" }).toArray⟩

/-- The equation that keeps one of the later parameters at zero. -/
def fixing (i : Nat) : Equation Float := { id := i + 2, expr := .param ⟨i + 2⟩ }

/-- The first two parameters are equal, and later ones are fixed. -/
def crowd (n : Nat) : EquationList Float :=
  ⟨({ id := 1, expr := (Expr.param ⟨0⟩).minus (.param ⟨1⟩) } ::
    (List.range n).map fixing).toArray⟩

section Crowd

variable {n i : Nat} {e : Equation Float} {h a b : Handle}

/-- The equations of a crowd, in the order of their ids. -/
theorem toList_crowd (n : Nat) : (crowd n).toList =
    { id := 1, expr := (Expr.param ⟨0⟩).minus (.param ⟨1⟩) } :: (List.range n).map fixing := rfl

/-- A parameter has its position as its id, counted from one. -/
theorem id_zeros (bound : h.index < n) : (zeros n).id h = h.index + 1 := by
  unfold Store.id Store.get zeros
  simp [Array.getD_eq_getD_getElem?, bound]

theorem value_zeros (n : Nat) (h : Handle) : (zeros n).value h = 0 := by
  unfold Store.value Store.get zeros
  rw [Array.getD_eq_getD_getElem?, List.getElem?_toArray, List.getElem?_map]
  cases (List.range n)[h.index]? with
  | none => rfl
  | some i => rfl

theorem sorted_crowd (n : Nat) : IdList.Sorted Equation.id (crowd n) := by
  unfold IdList.Sorted
  rw [toList_crowd, List.pairwise_cons, List.pairwise_map]
  constructor
  · intro e mem
    obtain ⟨k, _, rfl⟩ := List.mem_map.mp mem
    show (1 : Int) < k + 2
    omega
  · refine List.pairwise_lt_range.imp ?_
    intro k l lt
    show (k : Int) + 2 < l + 2
    omega

/-- Each of the later parameters has its equation. -/
theorem fixing_mem_crowd (lt : i < n) : fixing i ∈ (crowd n).toList := by
  rw [toList_crowd]
  exact List.mem_cons_of_mem _ (List.mem_map_of_mem (List.mem_range.mpr lt))

/-- Nothing is tagged in a crowd. -/
theorem clearTags_crowd (n : Nat) : (crowd n).clearTags = crowd n := by
  have same : (crowd n).clearTags.toList = (crowd n).toList := by
    rw [EquationList.toList_clearTags, toList_crowd, List.map_cons, List.map_map]
    rfl
  exact congrArg IdList.mk (Array.toList_inj.mp same)

/-- Only the first equation is between parameters. -/
theorem difference_crowd (mem : e ∈ (crowd n).toList)
    (difference : e.expr = (Expr.param a).minus (.param b)) : e.id = 1 ∧ a = ⟨0⟩ ∧ b = ⟨1⟩ := by
  rw [toList_crowd, List.mem_cons] at mem
  rcases mem with rfl | mem
  · cases difference
    exact ⟨rfl, rfl, rfl⟩
  · obtain ⟨k, _, rfl⟩ := List.mem_map.mp mem
    cases difference

/-- The parameters that a crowd mentions have ids of their own. -/
theorem ownIds_crowd (n : Nat) : OwnIds (zeros (n + 2)) (Problem.mentioned (crowd n)) := by
  have bound : ∀ h ∈ Problem.mentioned (crowd n), h.index < n + 2 := by
    intro h mem
    obtain ⟨e, he, hh⟩ := List.mem_flatMap.mp mem
    rw [toList_crowd, List.mem_cons] at he
    rcases he with rfl | he
    · have either : h = ⟨0⟩ ∨ h = ⟨1⟩ := by
        simpa [Expr.minus, Expr.params] using hh
      rcases either with rfl | rfl
      · show 0 < n + 2
        omega
      · show 1 < n + 2
        omega
    · obtain ⟨k, lt, rfl⟩ := List.mem_map.mp he
      obtain rfl : h = ⟨k + 2⟩ := List.mem_singleton.mp hh
      have := List.mem_range.mp lt
      show k + 2 < n + 2
      omega
  refine ⟨fun h mem => ?_, fun h mem k memk same => ?_⟩
  · rw [id_zeros (bound h mem)]
    omega
  · rw [id_zeros (bound h mem), id_zeros (bound k memk)] at same
    obtain ⟨h⟩ := h
    obtain ⟨k⟩ := k
    have eq : h = k := by
      simp only at same
      omega
    rw [eq]

/-! ## What merging leaves -/

variable {p : Problem Float} {s u : Store Float} {groups : List EqualGroup}
variable {es : EquationList Float}

/-- The tags of a crowd are free from the start. -/
theorem equations_resetScratch_crowd (crowded : p.equations = crowd n) (s : Store Float) :
    (p.resetScratch s).1.equations = crowd n := by
  show p.equations.clearTags = crowd n
  rw [crowded, clearTags_crowd]

theorem exists_merge_crowd (crowded : p.equations = crowd n) (s : Store Float) :
    ∃ groups es u, EqualGroup.merge (p.resetScratch s).2 p.params
      (p.resetScratch s).1.equations p.dragged = (.ok groups, es, u) := by
  rw [equations_resetScratch_crowd crowded]
  cases result : EqualGroup.merge (p.resetScratch s).2 p.params (crowd n) p.dragged with
  | mk outcome rest =>
    cases outcome with
    | ok groups => exact ⟨groups, rest.1, rest.2, rfl⟩
    | error r =>
      -- two equations between parameters would both be the first one
      obtain ⟨e, he, e', he', ne, x, y, ⟨a, b, difference, _⟩, a', b', difference', _⟩ :=
        (EqualGroup.merge_error_iff (sorted_crowd n) p.params p.dragged).mp ⟨r, by rw [result]⟩
      have first := (difference_crowd he difference).1
      have first' := (difference_crowd he' difference').1
      exact absurd (first.trans first'.symm) ne

section Merged

variable (merged : EqualGroup.merge (p.resetScratch s).2 p.params (p.resetScratch s).1.equations
  p.dragged = (.ok groups, es, u))

include merged

/-- A listed parameter has its value from before. -/
theorem value_merged (ready : p.Ready s) (mem : h ∈ p.params.toList) : u.value h = s.value h := by
  have sorted := ((Problem.resetScratch_frame p s).ready ready).sorted
  have reset : (p.resetScratch s).2.value h = s.value h := by
    unfold Store.value
    show ((Problem.resetParams p.params s).get h).value = _
    rw [Problem.get_resetParams mem]
  rw [← reset]
  unfold Store.value
  rcases get_merge (p := (p.resetScratch s).1) sorted merged mem with ⟨g, _, eq⟩ | eq
  · rw [eq]
    rfl
  · rw [eq]

variable (crowded : p.equations = crowd n)

include crowded

theorem untagged_merged : es.toList.map (·.untagged) = (crowd n).toList.map (·.untagged) := by
  rw [← crowded]
  exact (Problem.merge_frame merged).equations

/-- An equation with one parameter is not used up. -/
theorem fixing_mem_merged (lt : i < n) : fixing i ∈ es.toList := by
  obtain ⟨_, marks, _⟩ := EqualGroup.merge_ok merged
  rw [marks, equations_resetScratch_crowd crowded]
  exact List.mem_map.mpr ⟨fixing i, fixing_mem_crowd lt, rfl⟩

variable (ready : p.Ready s)

include ready

/-- Only one of the first two parameters can be eliminated. -/
theorem eliminated_crowd (mem : h ∈ p.params.toList) (gone : u.tag h = substitutedTag) :
    h = ⟨0⟩ ∨ h = ⟨1⟩ := by
  have ready' := (Problem.resetScratch_frame p s).ready ready
  obtain ⟨_, _, ⟨_, e, he, a, b, difference, ids⟩, _⟩ :=
    related_of_eliminated (p := (p.resetScratch s).1) ready'.sorted
      (fun h mem => (Problem.fresh_resetScratch p s h mem).1) merged mem gone
  have params := Expr.mem_params_of_difference (Expr.paramDifference?_eq_some_iff.mpr difference)
  have mema := ready'.listed e he a params.1
  have memb := ready'.listed e he b params.2
  rw [equations_resetScratch_crowd crowded] at he
  obtain ⟨_, rfl, rfl⟩ := difference_crowd he difference
  rcases ids with ⟨eq, _⟩ | ⟨_, eq⟩
  · exact Or.inl (ready'.sorted.eq_of_key_eq mema mem eq).symm
  · exact Or.inr (ready'.sorted.eq_of_key_eq memb mem eq).symm

/-- All that is fixed in a crowd is queued after merging. -/
theorem queued_crowd (zero : ∀ h, s.value h = 0) {tolerance : Float}
    (small : Scalar.abs 0 < tolerance) (le : i ≤ n) :
    Queued tolerance ((List.range i).map fun k => (fixing k, ⟨k + 2⟩))
      { p with equations := es } u := by
  have stage := stage_resetScratch ready tolerance merged
  have each : ∀ a ∈ (List.range i).map fun k => (fixing k, (⟨k + 2⟩ : Handle)),
      ∃ k, a = (fixing k, ⟨k + 2⟩) ∧ fixing k ∈ es.toList ∧
        (⟨k + 2⟩ : Handle) ∈ p.params.toList ∧ u.tag ⟨k + 2⟩ = 0 := by
    intro a mem
    obtain ⟨k, lt, rfl⟩ := List.mem_map.mp mem
    have he := fixing_mem_merged merged crowded (Nat.lt_of_lt_of_le (List.mem_range.mp lt) le)
    have listed : (⟨k + 2⟩ : Handle) ∈ p.params.toList :=
      stage.ready.listed (fixing k) he ⟨k + 2⟩ List.mem_cons_self
    refine ⟨k, rfl, he, listed, ?_⟩
    -- before the first group a tag is zero or that of elimination, which only the first two can have
    rcases stage.marked.low ⟨k + 2⟩ listed with low | gone
    · exact Nat.lt_one_iff.mp low
    · rcases eliminated_crowd merged crowded ready listed gone with eq | eq
      · exact absurd (congrArg Handle.index eq) (by simp)
      · exact absurd (congrArg Handle.index eq) (by simp)
  refine ⟨fun a mem => ?_, fun a mem => ?_, fun a mem => ?_, ?_⟩
  · obtain ⟨k, rfl, he, _⟩ := each a mem
    have sorted := EquationList.sorted_of_untagged (untagged_merged merged crowded) (sorted_crowd n)
    exact (IdList.find?_eq_some_iff sorted).mpr ⟨he, rfl⟩
  · obtain ⟨k, rfl, _, listed, free⟩ := each a mem
    exact Problem.loneUnknown?_param stage.ready listed rfl rfl free
  · obtain ⟨k, rfl, _, listed, free⟩ := each a mem
    show Scalar.abs (u.value (standIn u p.params ⟨k + 2⟩)) < tolerance
    rw [Expr.standIn_kept stage.ready.sorted listed (Store.kept_of_unmarked free),
      value_merged merged ready listed, zero]
    exact small
  · rw [List.pairwise_map]
    refine List.pairwise_lt_range.imp ?_
    intro k l lt
    constructor
    · show (k : Int) + 2 ≠ l + 2
      omega
    · intro eq
      have index : k + 2 = l + 2 := congrArg Handle.index eq
      omega

/-- The equation between parameters makes no group. -/
theorem loneGroup?_first :
    ({ p with equations := es } : Problem Float).loneGroup? u 1 1 = none := by
  refine Option.eq_none_iff_forall_ne_some.mpr fun g lone => ?_
  obtain ⟨_, _, plain, _⟩ := (stage_resetScratch ready 0 merged).tagging.fresh lone
  obtain ⟨found, _⟩ := Problem.loneGroup?_spec lone
  obtain ⟨mem, eq⟩ := IdList.find?_some found
  obtain ⟨e, he, same⟩ := EquationList.exists_of_untagged (untagged_merged merged crowded).symm mem
  have id : e.id = 1 := by
    have := congrArg Equation.id same
    exact Eq.trans this eq
  rw [← Equation.expr_of_untagged same] at plain
  rw [toList_crowd, List.mem_cons] at he
  rcases he with rfl | he
  · exact plain rfl
  · obtain ⟨k, _, rfl⟩ := List.mem_map.mp he
    have id' : (k : Int) + 2 = 1 := id
    omega

end Merged

/-! ## The groups of a crowd -/

variable {rough : Bool} {g : LoneGroup Float} (ready : p.Ready s) (crowded : p.equations = crowd n)

include ready crowded

/-- **A solve of a crowd makes group after group**, as far as numbers are not reserved. -/
theorem groupAt?_crowd (rough : Bool) (zero : ∀ h, s.value h = 0)
    (small : Scalar.abs 0 < p.settings.tolerance rough) (limit : 1 ≤ p.settings.maxUnknowns)
    (lt : i < n) (few : i < substitutedTag) :
    ∃ g, p.groupAt? rough s (i + 1) = some g ∧ g.number = i + 1 ∧ g.unknown = ⟨i + 2⟩ := by
  obtain ⟨groups, es, u, merged⟩ := exists_merge_crowd crowded s
  have stage := stage_resetScratch ready (p.settings.tolerance rough) merged
  have queued := queued_crowd merged crowded ready zero small (show i + 1 ≤ n from lt)
  -- the equations before the last one are gone through, and it is still queued then
  rw [List.range_succ, List.map_append] at queued
  obtain ⟨q, t, ran, last⟩ := queued.run stage.tagging
    (EquationList.sorted_of_untagged (untagged_merged merged crowded) (sorted_crowd n)) limit
    (by rw [List.length_map, List.length_range]; omega)
  rw [List.length_map, List.length_range, Nat.add_comm, List.map_map] at ran
  have ids : es.toList.map (·.id) = 1 :: (List.range n).map fun k : Nat => (k : Int) + 2 := by
    rw [EquationList.ids_of_untagged (untagged_merged merged crowded), toList_crowd,
      List.map_cons, List.map_map]
    rfl
  have lone := last.loneGroup? (i + 1)
  refine ⟨_, Problem.groupAt?_eq_some_iff.mpr ⟨groups, es, u, (i : Int) + 2, i + 1, q, t, merged,
    ?_, ?_, lone⟩, rfl, rfl⟩
  · rw [ids, List.getElem?_cons_succ, List.getElem?_map, List.getElem?_range lt]
    rfl
  · rw [ids, List.take_succ_cons, ← List.map_take, List.take_range, Nat.min_eq_left (by omega),
      Problem.solveAlonesFrom_of_none (loneGroup?_first merged crowded ready)]
    exact ran

/-- The group that gets the tag of what is eliminated is not on its own. -/
theorem columns_ne_crowd (formed : p.groupAt? rough s i = some g)
    (reserved : g.number = substitutedTag) : g.columns ≠ [g.unknown] := by
  intro alone
  refine (Problem.columns_of_groupAt?_iff ready formed).mp alone ⟨reserved,
    { id := 1, expr := (Expr.param ⟨0⟩).minus (.param ⟨1⟩) }, ?_, ⟨0⟩, ⟨1⟩, rfl, ?_⟩
  · rw [crowded, toList_crowd]
    exact List.mem_cons_self
  · intro eq
    exact absurd (congrArg Handle.index eq) (by decide)

/-- Besides its unknown a group selects at most what is eliminated. -/
theorem length_columns_crowd (formed : p.groupAt? rough s i = some g) : g.columns.length ≤ 3 := by
  obtain ⟨groups, es, u, q, t, id, merged, frame, lone, tagging⟩ :=
    Problem.tagging_of_groupAt? ready formed
  obtain ⟨_, _, _, problem, store⟩ := Problem.loneGroup?_spec lone
  have nodup : g.columns.Nodup := by
    unfold LoneGroup.columns
    rw [problem]
    exact tagging.ready.sorted.nodup.filter _
  have within : g.columns ⊆ [⟨0⟩, ⟨1⟩, g.unknown] := by
    intro k column
    obtain ⟨mem, tag⟩ := List.mem_filter.mp column
    rw [problem] at mem
    rw [store, Store.tag_setTag, beq_iff_eq] at tag
    simp only [List.mem_cons, List.not_mem_nil, or_false]
    split at tag
    next eq => exact Or.inr (Or.inr eq.symm)
    next =>
      by_cases gone : u.tag k = substitutedTag
      · rw [← or_assoc]
        exact Or.inl (eliminated_crowd merged crowded ready (frame.params ▸ mem) gone)
      · have := tagging.taken k mem gone
        omega
  exact (List.subperm_of_subset nodup within).length_le

omit ready crowded in
/-- **A crowd with enough parameters has a group that is not on its own.** -/
theorem exists_crowded_group (problem : Problem Float) (rough : Bool) (many : substitutedTag ≤ n)
    (small : Scalar.abs 0 < problem.settings.tolerance rough)
    (limit : 1 ≤ problem.settings.maxUnknowns) :
    ∃ p g, problem.load (zeros (n + 2)) (crowd n) [] = (.ok (), p) ∧
      p.groupAt? rough (zeros (n + 2)) substitutedTag = some g ∧
      g.problem.settings = problem.settings ∧ g.selected.length = 1 ∧
      g.columns ≠ [g.unknown] ∧ 1 < g.columns.length ∧ g.columns.length ≤ 3 := by
  obtain ⟨params, loaded, _⟩ := Problem.load_ok problem (ownIds_crowd n) []
  have ready := Problem.ready_of_load (ownIds_crowd n) loaded
  obtain ⟨g, formed, number, _⟩ := groupAt?_crowd (i := substitutedTag - 1) ready rfl rough
    (value_zeros _) small limit (by unfold substitutedTag at *; omega) (by decide)
  have reserved : g.number = substitutedTag := number
  have selected := (Problem.selected_of_groupAt?_iff ready formed).mpr fun used => by
    rw [reserved] at used
    exact absurd used.1 (by decide)
  have settings := Problem.settings_of_groupAt? ready formed
  have others := columns_ne_crowd ready rfl formed reserved
  -- the unknown is a column, so there is another one
  have most : ¬g.columns.length ≤ 1 := by
    intro few
    have mem := Problem.unknown_mem_columns ready formed
    have pos := List.length_pos_of_mem mem
    obtain ⟨k, eq⟩ := List.length_eq_one_iff.mp (Nat.le_antisymm few pos)
    rw [eq, List.mem_singleton] at mem
    rw [eq, mem] at others
    exact others rfl
  exact ⟨_, g, loaded, formed, settings, by rw [selected]; rfl, others, by omega,
    length_columns_crowd ready rfl formed⟩

end Crowd

/-- **In a crowd a group takes in a parameter that is not its own.** -/
theorem not_isolated_crowd : OwnIds (zeros 10003) (Problem.mentioned (crowd 10001)) ∧
    ∃ p g j, ({ settings := Settings.standard } : Problem Float).load (zeros 10003) (crowd 10001)
        [] = (.ok (), p) ∧
      p.groupAt? false (zeros 10003) 10001 = some g ∧ g.jacobian = .ok j ∧
      ¬j.columns = [g.unknown] := by
  obtain ⟨p, g, loaded, formed, settings, selected, others, _, columns⟩ :=
    exists_crowded_group (n := 10001) { settings := Settings.standard } false (by decide)
      (by decide +kernel) (by decide)
  refine ⟨ownIds_crowd 10001, p, g, _, loaded, formed, LoneGroup.jacobian_eq_ok ?_ ?_, others⟩
  · rw [settings]
    exact Nat.le_trans columns (by decide)
  · rw [settings, selected]
    decide

/-- **Where only one unknown is allowed at a time, a solve of a crowd fails**, though each of its
groups should have one. -/
theorem solve_crowd : ∃ p count q t,
    ({ settings := { Settings.standard with maxUnknowns := 1 } } : Problem Float).load
      (zeros 10003) (crowd 10001) [] = (.ok (), p) ∧
    1 < count ∧ p.solve false (zeros 10003) = (.error (.tooMany ⟨count, 1⟩), q, t) := by
  obtain ⟨p, g, loaded, formed, settings, _, _, many, _⟩ :=
    exists_crowded_group (n := 10001)
      { settings := { Settings.standard with maxUnknowns := 1 } } false (by decide)
      (by decide +kernel) (by decide)
  have written : g.jacobian = .error ⟨g.columns.length, 1⟩ := by
    have error := LoneGroup.jacobian_eq_error (g := g) (by rw [settings]; exact many)
    rw [settings] at error
    exact error
  have failed : ∀ tolerance, g.problem.solveAlone tolerance g.number g.unknown g.store =
      (.error (.tooMany ⟨g.columns.length, 1⟩), g.store) := by
    intro tolerance
    unfold LoneGroup.jacobian at written
    unfold Problem.solveAlone
    rw [written]
  exact ⟨p, _, _, _, loaded, many, Problem.solve_of_groupAt?_error formed (failed _)⟩

end SketchSolver

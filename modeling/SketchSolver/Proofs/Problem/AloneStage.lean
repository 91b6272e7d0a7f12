import SketchSolver.Proofs.Expr.MentionedIds
import SketchSolver.Proofs.Problem.Stage

/-!
# Equations solved alone

An equation that is solved alone mentions a single parameter (`loneUnknown?_spec`), and its
group consists of that parameter and that equation. So the run moves this parameter and no
other (`settles_solveAlone`), which no earlier group had settled, and the next stage is
reached (`Stage.step`).

What counts is the equation as it was loaded, not its frozen copy. A settled parameter is
mentioned like any other one, and so is one that was merged. An equation in two parameters is
therefore left to the main system even when one of them was settled before, and an equation
in a parameter that was eliminated is left to it as well. The second equation in the same
parameter, on the other hand, finds its unknown taken.

`Settles` is the effect of one group on the store, and says all of it: one parameter has the
number of the group as its tag, is settled, and has some value. The `Stage` after the group
has three parts for which this is needed. Equations of earlier groups hold still, since their
stand-ins were settled and are not this one. The new equation holds, since Newton's method has
stopped at a residual below the tolerance. And whatever is eliminated has the stand-in that it
had.

Two ways of going through the chain follow. `induction_solveAlonesFrom` is for whatever a
group hands on to the next one, and `chain_solveAlonesFrom` is the same for what needs a stage
and numbers below the reserved tags. From the start of a solve they lead to `stage_of_phases`,
the stage that the main system begins with.
-/

namespace SketchSolver

open SketchSolver.Expr (standIn)

variable {α : Type} [Zero α]

namespace Problem

variable {p : Problem α} {s t : Store α} {e : Equation α} {h : Handle}

/-- The unknown of an equation is free, and is all that the equation mentions. -/
theorem loneUnknown?_spec (ready : p.Ready s) (he : e ∈ p.equations.toList)
    (lone : p.loneUnknown? s e = some h) :
    e.tag = 0 ∧ s.tag h = 0 ∧ ∀ k ∈ e.expr.params, k = h := by
  have memh := loneUnknown?_mem lone
  unfold loneUnknown? at lone
  split at lone
  next => simp at lone
  next free =>
    split at lone
    next id single =>
      obtain ⟨found, untaken⟩ := Option.filter_eq_some_iff.mp lone
      refine ⟨Decidable.byContradiction free, eq_of_beq untaken, fun k hk => ?_⟩
      have memk := ready.listed e he k hk
      have eq := Expr.referenced_single single k hk (ready.has memk)
      exact ready.sorted.eq_of_key_eq memk memh (eq.trans (ParamList.byId?_id found).symm)
    next => simp at lone

section Solve

variable [One α] [Add α] [Sub α] [Mul α] [Div α] [Neg α] [LT α] [BEq α]
variable [DecidableLT α] [Elementary α] {tolerance : α} {group : Nat}

/-- An equation is solved alone by a run on its group, after which the unknown is settled. -/
theorem solveAlone_ok (solved : p.solveAlone tolerance group h s = (.ok (), t)) :
    ∃ j u, Jacobian.write group s p.params p.equations p.settings.maxUnknowns = .ok j ∧
      j.rows.length ≤ j.columns.length ∧ Store.Moved j.columns s u ∧
      converged tolerance (j.residuals u.value) = true ∧ t = u.setKnown h true := by
  unfold solveAlone at solved
  split at solved
  next => simp at solved
  next j written =>
    have moved := Newton.run_moved p.settings p.dragged tolerance j s
    split at solved
    next => simp at solved
    next u ran =>
      rw [ran] at moved
      simp only [Prod.mk.injEq, true_and] at solved
      obtain ⟨enough, conv⟩ := Newton.run_ok ran
      exact ⟨j, u, written, enough, moved, conv, solved.symm⟩

end Solve

end Problem

/-- Taking a parameter that was not eliminated for a group changes no stand-in. -/
theorem standIn_setTag {group : Nat} {h : Handle} {s : Store α} {params : ParamList}
    (bound : group < substitutedTag) (kept : (s.get h).isSubstituted = false) (k : Handle) :
    standIn (s.setTag h group) params k = standIn s params k := by
  refine Expr.standIn_of_marks (fun k => Store.id_setTag s h k group) (fun k _ => ?_) k
  rw [Store.get_setTag]
  split
  next eq =>
    subst eq
    rw [kept]
    exact ⟨Param.not_isSubstituted_iff.mpr (Nat.ne_of_lt bound), rfl⟩
  next => exact ⟨rfl, rfl⟩

/-- `t` is `s` with one parameter taken by a group and settled at some value. -/
def Settles (group : Nat) (h : Handle) (s t : Store α) : Prop :=
  ∀ k, t.get k =
    if h = k then { s.get h with tag := group, value := t.value h, known := true } else s.get k

namespace Settles

variable {group : Nat} {h k : Handle} {s t : Store α} {params : ParamList}

theorem self (settles : Settles group h s t) :
    t.get h = { s.get h with tag := group, value := t.value h, known := true } := by
  have := settles h
  rw [if_pos rfl] at this
  exact this

theorem other (settles : Settles group h s t) (ne : k ≠ h) : t.get k = s.get k := by
  rw [settles k, if_neg (Ne.symm ne)]

theorem id (settles : Settles group h s t) (k : Handle) : t.id k = s.id k := by
  unfold Store.id
  rw [settles k]
  split
  next eq => rw [eq]
  next => rfl

/-- The parameter has the number of the group as its tag. -/
theorem tag_self (settles : Settles group h s t) : t.tag h = group := by
  unfold Store.tag
  rw [settles.self]

theorem tag_other (settles : Settles group h s t) (ne : k ≠ h) : t.tag k = s.tag k := by
  unfold Store.tag
  rw [settles.other ne]

/-- Settling a parameter that was not eliminated changes no stand-in. -/
theorem standIn (settles : Settles group h s t) (bound : group < substitutedTag)
    (kept : (s.get h).isSubstituted = false) (k : Handle) :
    standIn t params k = standIn s params k := by
  refine Expr.standIn_of_marks settles.id (fun k _ => ?_) k
  by_cases eq : k = h
  · rw [eq, settles.self, kept]
    exact ⟨Param.not_isSubstituted_iff.mpr (Nat.ne_of_lt bound), rfl⟩
  · rw [settles.other eq]
    exact ⟨rfl, rfl⟩

/-- Settling a parameter in a group makes way for the next group. -/
theorem marked (settles : Settles group h s t) (pos : 0 < group) (bound : group < substitutedTag)
    (marked : Marked group params s) : Marked (group + 1) params t := by
  refine ⟨fun k mem => ?_, fun k mem known => ?_, fun k mem gone => ?_⟩
  · by_cases eq : k = h
    · rw [eq, settles.tag_self]
      exact Or.inl (Nat.lt_succ_self group)
    · rw [settles.tag_other eq]
      exact (marked.low k mem).imp_left Nat.lt_succ_of_lt
  · by_cases eq : k = h
    · rw [eq, settles.tag_self]
      exact ⟨Nat.ne_of_gt pos, Nat.ne_of_lt bound⟩
    · rw [settles.other eq] at known
      rw [settles.tag_other eq]
      exact marked.known k mem known
  · -- the parameter that is settled was not eliminated, and may represent others
    have ne : k ≠ h := by
      intro eq
      rw [eq, settles.tag_self] at gone
      exact absurd gone (Nat.ne_of_lt bound)
    rw [settles.tag_other ne] at gone
    obtain ⟨r, memr, idr, kept⟩ := marked.represented k mem gone
    refine ⟨r, memr, by rw [settles.id, settles.other ne]; exact idr, ?_⟩
    by_cases eq : r = h
    · rw [eq, settles.tag_self]
      exact Nat.ne_of_lt bound
    · rw [settles.tag_other eq]
      exact kept

end Settles

section Solve

variable [One α] [Add α] [Sub α] [Mul α] [Div α] [Neg α] [LT α] [BEq α]
variable [DecidableLT α] [Elementary α] {tolerance : α} {group : Nat}
variable {p : Problem α} {s t : Store α} {e : Equation α} {h : Handle} {id : Int}

/-- Solving an equation alone settles its unknown, and all else is as before. -/
theorem settles_solveAlone (marked : Marked group p.params s) (bound : group < substitutedTag)
    (solved : p.solveAlone tolerance group h (s.setTag h group) = (.ok (), t)) :
    Settles group h s t := by
  intro k
  obtain ⟨j, u, written, _, moved, _, rfl⟩ := Problem.solveAlone_ok solved
  rw [Store.get_setKnown]
  split
  next eq =>
    subst eq
    have value : (u.setKnown h true).value h = u.value h := by
      unfold Store.value
      rw [Store.get_setKnown, if_pos rfl]
    rw [value, moved.get h, Store.get_setTag, if_pos rfl]
  next ne =>
    rw [moved.frame k, Store.get_setTag, if_neg ne]
    intro column
    obtain ⟨mem, tag⟩ := (Jacobian.mem_columns written).mp column
    unfold Store.tag at tag
    rw [Store.get_setTag, if_neg ne] at tag
    -- the group number is new, so no other parameter has it
    rcases marked.low k mem with low | gone
    · exact absurd tag (Nat.ne_of_lt low)
    · exact absurd (tag.symm.trans gone) (Nat.ne_of_lt bound)

/-- The equation that was solved alone holds at the stand-ins from before. -/
theorem holdsAt_of_solveAlone (stage : Stage tolerance group p s) (bound : group < substitutedTag)
    (found : p.equations.byId? id = some e) (lone : p.loneUnknown? s e = some h)
    (solved : { p with equations := p.equations.setTag id group }.solveAlone tolerance group h
      (s.setTag h group) = (.ok (), t)) :
    Scalar.abs (e.expr.eval fun k => t.value (standIn s p.params k)) < tolerance := by
  have he := (IdList.find?_some found).1
  have memh := Problem.loneUnknown?_mem lone
  obtain ⟨_, freeh, only⟩ := Problem.loneUnknown?_spec stage.ready he lone
  obtain ⟨j, u, written, _, moved, conv, rfl⟩ := Problem.solveAlone_ok solved
  have ids : ∀ k, (s.setTag h group).id k = s.id k := fun k => Store.id_setTag s h k group
  have sorted : IdList.Sorted (s.setTag h group).id p.params :=
    stage.ready.sorted.congr fun k _ => ids k
  have stand : ∀ k, standIn (s.setTag h group) p.params k = standIn s p.params k :=
    standIn_setTag bound (Store.kept_of_unmarked freeh)
  have settled : ∀ r ∈ p.params.toList, ((s.setTag h group).get r).known = true →
      u.value r = (s.setTag h group).value r := by
    intro r memr known
    refine moved.value fun column => ?_
    have tag := ((Jacobian.mem_columns written).mp column).2
    -- the unknown is not settled yet
    have ne : ¬ h = r := by
      intro eq
      subst eq
      rw [Store.get_setTag, if_pos rfl] at known
      exact (stage.marked.known h memh known).1 freeh
    unfold Store.tag at tag
    rw [Store.get_setTag, if_neg ne] at known tag
    rcases stage.marked.low r memr with low | gone
    · exact absurd tag (Nat.ne_of_lt low)
    · exact (stage.marked.known r memr known).2 gone
  -- the equation is a row of the run, and frozen it evaluates like at its stand-ins
  obtain ⟨row, hrow, residual⟩ := Jacobian.exists_row written
    (EquationList.tagged_mem_setTag found group) rfl
  have small := converged_residual conv row hrow
  rw [residual, Expr.eval_frozen_standIn sorted (stage.ready.listed e he) settled] at small
  have value : ∀ k, (u.setKnown h true).value k = u.value k := fun k => by
    unfold Store.value
    rw [Store.get_setKnown]
    split
    next eq => rw [eq]
    next => rfl
  simp only [stand] at small
  simp only [value]
  exact small

omit [One α] [BEq α] in
/-- An equation that an earlier group has settled reads nothing that a later one moves. -/
theorem Stage.settled_of_settles {e' : Equation α} (stage : Stage tolerance group p s)
    (bound : group < substitutedTag) (memh : h ∈ p.params.toList) (free : s.tag h = 0)
    (settles : Settles group h s t) (he' : e' ∈ p.equations.toList) (taken : e'.tag ≠ 0)
    (kept : e'.tag ≠ usedUpTag) :
    (∀ k ∈ e'.expr.params, (t.get (standIn t p.params k)).known = true) ∧
      e'.HoldsAt tolerance p.params t := by
  have stand : ∀ k, standIn t p.params k = standIn s p.params k :=
    settles.standIn bound (Store.kept_of_unmarked free)
  obtain ⟨known, holds⟩ := stage.settled e' he' taken kept
  -- its stand-ins are settled, and the one that moves is not
  have still : ∀ k ∈ e'.expr.params,
      t.get (standIn s p.params k) = s.get (standIn s p.params k) := by
    intro k hk
    refine settles.other fun eq => ?_
    have := known k hk
    rw [eq] at this
    exact (stage.marked.known h memh this).1 free
  refine ⟨fun k hk => ?_, ?_⟩
  · rw [stand, still k hk]
    exact known k hk
  · unfold Equation.HoldsAt at holds ⊢
    rw [Expr.eval_congr e'.expr fun k hk => ?_]
    · exact holds
    · show t.value (standIn t p.params k) = s.value (standIn s p.params k)
      unfold Store.value
      rw [stand, still k hk]

/-- **Solving one equation alone leads to the next stage.** -/
theorem Stage.step (stage : Stage tolerance group p s) (bound : group < substitutedTag)
    (found : p.equations.byId? id = some e) (lone : p.loneUnknown? s e = some h)
    (solved : { p with equations := p.equations.setTag id group }.solveAlone tolerance group h
      (s.setTag h group) = (.ok (), t)) :
    Stage tolerance (group + 1) { p with equations := p.equations.setTag id group } t := by
  have he := (IdList.find?_some found).1
  have memh := Problem.loneUnknown?_mem lone
  obtain ⟨freee, freeh, only⟩ := Problem.loneUnknown?_spec stage.ready he lone
  have settles := settles_solveAlone (p := { p with equations := p.equations.setTag id group })
    stage.marked bound solved
  have kept := Store.kept_of_unmarked freeh
  have stand : ∀ k, standIn t p.params k = standIn s p.params k := settles.standIn bound kept
  have exprs := EquationList.exprs_of_untagged
    (EquationList.untagged_setTag p.equations id group)
  refine ⟨Nat.succ_pos group, stage.ready.congr rfl exprs settles.id,
    settles.marked stage.pos bound stage.marked, fun e' he' => ?_, fun e' he' => ?_,
    fun e' he' a b difference => ?_, fun e' he' ne ne' => ?_⟩
  · rcases EquationList.mem_setTag found he' with rfl | old
    · exact Or.inl (Nat.lt_succ_self group)
    · exact (stage.low e' old).imp_left Nat.lt_succ_of_lt
  · rcases EquationList.mem_setTag found he' with rfl | old
    · have none : ¬ e.expr.paramDifference?.isSome := fun some => by
        have := (stage.usedUp e he).mpr some
        rw [freee] at this
        exact absurd this (by decide)
      -- an equation that can be solved alone is no difference, and its new tag is below the reserved one
      refine iff_of_false (fun eq => ?_) none
      have : group = usedUpTag := eq
      unfold usedUpTag at this
      unfold substitutedTag at bound
      omega
    · exact stage.usedUp e' old
  · rw [stand, stand]
    rcases EquationList.mem_setTag found he' with rfl | old
    · exact stage.equal e he a b difference
    · exact stage.equal e' old a b difference
  · rcases EquationList.mem_setTag found he' with rfl | old
    · -- the new equation mentions its unknown only, which is settled now and stands in for itself
      refine ⟨fun k hk => ?_, ?_⟩
      · rw [stand, only k hk, Expr.standIn_kept stage.ready.sorted memh kept, settles.self]
      · unfold Equation.HoldsAt
        simp only [stand]
        exact holdsAt_of_solveAlone stage bound found lone solved
    · exact stage.settled_of_settles bound memh freeh settles old ne ne'

/-- A chain of groups uses one number for each equation at most. -/
theorem numbers_solveAlonesFrom : ∀ {ids : List Int} {group next : Nat} {p q : Problem α}
    {s t : Store α}, Problem.solveAlonesFrom tolerance group ids p s = (.ok next, q, t) →
    group ≤ next ∧ next ≤ group + ids.length
  | [], group, next, p, q, s, t, solved => by
    cases solved
    exact ⟨Nat.le_refl _, Nat.le_refl _⟩
  | id :: ids, group, next, p, q, s, t, solved => by
    rw [List.length_cons]
    unfold Problem.solveAlonesFrom at solved
    split at solved
    next =>
      have := numbers_solveAlonesFrom solved
      omega
    next =>
      simp only at solved
      split at solved
      next => simp at solved
      next =>
        have := numbers_solveAlonesFrom solved
        omega

/-- What every group of a chain hands on to the next, the chain hands on to what follows. -/
theorem induction_solveAlonesFrom {motive : Nat → Problem α → Store α → Prop} {last : Nat}
    (step : ∀ {group : Nat} {p : Problem α} {s t : Store α} {id : Int} {e : Equation α} {h : Handle},
      group < last → p.equations.byId? id = some e → p.loneUnknown? s e = some h →
      { p with equations := p.equations.setTag id group }.solveAlone tolerance group h
        (s.setTag h group) = (.ok (), t) → motive group p s →
      motive (group + 1) { p with equations := p.equations.setTag id group } t) :
    ∀ {ids : List Int} {group : Nat} {p q : Problem α} {s t : Store α},
    Problem.solveAlonesFrom tolerance group ids p s = (.ok last, q, t) → motive group p s →
    motive last q t
  | [], group, p, q, s, t, solved, holds => by
    cases solved
    exact holds
  | id :: ids, group, p, q, s, t, solved, holds => by
    unfold Problem.solveAlonesFrom at solved
    split at solved
    next => exact induction_solveAlonesFrom step solved holds
    next h lone =>
      obtain ⟨e, found, lone⟩ := Option.bind_eq_some_iff.mp lone
      simp only at solved
      split at solved
      next => simp at solved
      next solvedAlone =>
        have := numbers_solveAlonesFrom solved
        exact induction_solveAlonesFrom step solved
          (step (by omega) found lone solvedAlone holds)

/-- The chain of equations that are solved alone leads from stage to stage, and what every group
hands on to the next, the chain hands on to what follows. -/
theorem chain_solveAlonesFrom {motive : Nat → Problem α → Store α → Prop}
    (step : ∀ {group : Nat} {p : Problem α} {s t : Store α} {id : Int} {e : Equation α} {h : Handle},
      Stage tolerance group p s → group < substitutedTag → p.equations.byId? id = some e →
      p.loneUnknown? s e = some h → Settles group h s t → motive group p s →
      motive (group + 1) { p with equations := p.equations.setTag id group } t)
    {ids : List Int} {group next : Nat} {p q : Problem α} {s t : Store α}
    (stage : Stage tolerance group p s) (few : group + ids.length ≤ substitutedTag)
    (solved : Problem.solveAlonesFrom tolerance group ids p s = (.ok next, q, t))
    (holds : motive group p s) : Stage tolerance next q t ∧ motive next q t := by
  have numbers := numbers_solveAlonesFrom solved
  refine induction_solveAlonesFrom
    (motive := fun group p s => Stage tolerance group p s ∧ motive group p s) ?_ solved
    ⟨stage, holds⟩
  intro group p s t id e h lt found lone solvedAlone both
  have bound : group < substitutedTag := by omega
  have settles := settles_solveAlone (p := { p with equations := p.equations.setTag id group })
    both.1.marked bound solvedAlone
  exact ⟨both.1.step bound found lone solvedAlone, step both.1 bound found lone settles both.2⟩

/-- **The chain of equations that are solved alone leads from stage to stage.** -/
theorem stage_solveAlonesFrom {ids : List Int} {group next : Nat} {p q : Problem α}
    {s t : Store α} (stage : Stage tolerance group p s)
    (few : group + ids.length ≤ substitutedTag)
    (solved : Problem.solveAlonesFrom tolerance group ids p s = (.ok next, q, t)) :
    Stage tolerance next q t :=
  (chain_solveAlonesFrom (motive := fun _ _ _ => True) (fun _ _ _ _ _ _ => trivial) stage few solved
    trivial).1

/-- What every group keeps, the chain keeps. -/
theorem invariant_solveAlonesFrom {motive : Problem α → Store α → Prop}
    (step : ∀ {group : Nat} {p : Problem α} {s t : Store α} {id : Int} {h : Handle},
      group < substitutedTag → (s.get h).isSubstituted = false → Settles group h s t →
      motive p s → motive { p with equations := p.equations.setTag id group } t)
    {ids : List Int} {group next : Nat} {p q : Problem α} {s t : Store α}
    (stage : Stage tolerance group p s) (few : group + ids.length ≤ substitutedTag)
    (solved : Problem.solveAlonesFrom tolerance group ids p s = (.ok next, q, t))
    (holds : motive p s) : motive q t := by
  refine (chain_solveAlonesFrom (motive := fun _ => motive) (fun stage bound found lone settles =>
    step bound ?_ settles) stage few solved holds).2
  obtain ⟨_, free, _⟩ := Problem.loneUnknown?_spec stage.ready (IdList.find?_some found).1 lone
  exact Store.kept_of_unmarked free

/-! ## From the start of a solve -/

omit [One α] [BEq α] in
/-- After the reset, merging starts the first stage. -/
theorem stage_resetScratch {groups : List EqualGroup} {equations : EquationList α}
    (ready : p.Ready s) (tolerance : α)
    (merged : EqualGroup.merge (p.resetScratch s).2 p.params (p.resetScratch s).1.equations
      p.dragged = (.ok groups, equations, t)) :
    Stage tolerance 1 { p with equations } t := by
  have free : ∀ e ∈ (p.resetScratch s).1.equations.toList, e.tag = 0 := by
    intro e he
    obtain ⟨e₀, _, rfl⟩ := EquationList.mem_clearTags.mp he
    rfl
  exact stage_merge (p := (p.resetScratch s).1) tolerance
    ((Problem.resetScratch_frame p s).ready ready) (Problem.fresh_resetScratch p s) free merged

/-- Up to the main system a solve is a reset, a merge and a chain of groups, all of whose numbers are
below the reserved tags. -/
theorem chain_of_phases {rough : Bool} {n : Nat} {q : Problem α} {u : Store α}
    {groups : List EqualGroup} {equations : EquationList α} (ready : p.Ready s)
    (few : p.equations.size ≤ 10000)
    (merged : EqualGroup.merge (p.resetScratch s).2 p.params (p.resetScratch s).1.equations
      p.dragged = (.ok groups, equations, t))
    (alones : { p with equations }.solveAlones (p.settings.tolerance rough) t = (.ok n, q, u)) :
    ∃ group, n = group - 1 ∧ Stage (p.settings.tolerance rough) 1 { p with equations } t ∧
      1 + (equations.toList.map (·.id)).length ≤ substitutedTag ∧
      Problem.solveAlonesFrom (p.settings.tolerance rough) 1 (equations.toList.map (·.id))
        { p with equations } t = (.ok group, q, u) := by
  have size : equations.size = p.equations.size :=
    EquationList.size_of_untagged (Problem.merge_frame merged).equations
  unfold Problem.solveAlones at alones
  split at alones
  next => simp at alones
  next group q' t' chain =>
    simp only [Prod.mk.injEq, Except.ok.injEq] at alones
    obtain ⟨rfl, rfl, rfl⟩ := alones
    refine ⟨group, rfl, stage_resetScratch ready _ merged, ?_, chain⟩
    have count : equations.toList.length = equations.size := Array.length_toList
    rw [List.length_map, count, size]
    unfold substitutedTag
    omega

/-- Up to the main system a solve leads through stages. -/
theorem stage_of_phases {rough : Bool} {n : Nat} {q : Problem α} {u : Store α}
    {groups : List EqualGroup} {equations : EquationList α} (ready : p.Ready s)
    (few : p.equations.size ≤ 10000)
    (merged : EqualGroup.merge (p.resetScratch s).2 p.params (p.resetScratch s).1.equations
      p.dragged = (.ok groups, equations, t))
    (alones : { p with equations }.solveAlones (p.settings.tolerance rough) t = (.ok n, q, u)) :
    ∃ group, Stage (p.settings.tolerance rough) group q u := by
  obtain ⟨group, _, first, bound, chain⟩ := chain_of_phases ready few merged alones
  exact ⟨group, stage_solveAlonesFrom first bound chain⟩

end Solve

end SketchSolver

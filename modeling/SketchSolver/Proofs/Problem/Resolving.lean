import SketchSolver.Proofs.Problem.MainSystem
import SketchSolver.Proofs.Problem.Scratch

/-!
# Solving again moves nothing

A solve that succeeded can be repeated: the second one changes no value, takes no step, and
reports the same otherwise, unless the equations of its main system are found to depend on
each other at the values that the first one left (`unmoved_of_solve_twice`).

The second run goes through the phases of the first one with other values: at each point it
has the scratch that the first one had there, and the values that the first one ended with
(`Recast`). At those every equation holds and every parameter has the value of its stand-in,
so each Jacobian of the second run is below the tolerance before the first step
(`converged_of_holdsAt`). That it has no more rows than columns is a matter of tags, and so as
in the first run.

`Recast` is a relation between the two runs at the same point. It fixes the values of the
second run once and for all, since that run is to move nothing, and it asks for the scratch
of the first run under the listed parameters. Phases that do not read values keep it for the
reason that they do to both stores the same thing: resetting, merging and tagging. Merging in
particular needs no numbers, for it pairs parameters by their ids, and a representative is
chosen by ids and by what is dragged.

Where values are read it is Newton's method that does so, and there the two runs differ: the
first one may take many steps, the second takes none. What makes them meet again is that a
group writes nothing but the values of its columns. After it the scratch of the two runs is
the same, and the values of the second run are those from the end of the first one.

The exception is there for rows that are independent at the values from before and depend on
each other at the solution. The rank test comes before the test whether the equations hold,
so such a system is refused although nothing would have to be done.

No property of arithmetic is used. Two residuals are compared only where they are computed
from the same values by the same expression.
-/

namespace SketchSolver

open SketchSolver.Expr (standIn)

variable {α : Type} [Zero α]

/-- `t` has the given values, the ids of `s`, and under some handles the scratch of `s`. -/
structure Store.Recast (hs : List Handle) (v : Handle → α) (s t : Store α) : Prop where
  id : ∀ h, t.id h = s.id h
  value : ∀ h, t.value h = v h
  get : ∀ h ∈ hs, t.get h = { s.get h with value := v h }

namespace Store.Recast

variable {hs : List Handle} {v : Handle → α} {s t : Store α} {h : Handle}

theorem tag (recast : Recast hs v s t) (mem : h ∈ hs) : t.tag h = s.tag h := by
  unfold Store.tag
  rw [recast.get h mem]

/-- The same change of scratch in both stores. -/
theorem modify (recast : Recast hs v s t) (k : Handle) {f : Param α → Param α}
    (id : ∀ p, (f p).id = p.id) (apart : ∀ (p : Param α) (x : α),
      f { p with value := x } = { f p with value := x }) :
    Recast hs v (s.modify k f) (t.modify k f) := by
  have value : ∀ p, (f p).value = p.value := fun p => by
    have := congrArg Param.value (apart p p.value)
    exact this
  refine ⟨fun h => ?_, fun h => ?_, fun h mem => ?_⟩
  · have eq := recast.id h
    unfold Store.id at eq ⊢
    rw [get_modify, get_modify]
    split
    next same => rw [id, id, same, eq]
    next => exact eq
  · have eq := recast.value h
    unfold Store.value at eq ⊢
    rw [get_modify]
    split
    next same => rw [value, same, eq]
    next => exact eq
  · rw [get_modify, get_modify]
    split
    next same =>
      subst same
      rw [recast.get k mem, apart]
    next => exact recast.get h mem

/-- Values of the first store do not matter. -/
theorem of_moved {ks : List Handle} {u : Store α} (recast : Recast hs v s t)
    (moved : Moved ks s u) : Recast hs v u t :=
  ⟨fun h => (recast.id h).trans (moved.id h).symm, recast.value,
    fun h mem => by rw [recast.get h mem, moved.get h]⟩

/-- The same steps in both stores. -/
theorem foldl {γ : Type} {f : Store α → γ → Store α}
    (each : ∀ x s t, Recast hs v s t → Recast hs v (f s x) (f t x)) : ∀ (xs : List γ)
    {s t : Store α}, Recast hs v s t → Recast hs v (xs.foldl f s) (xs.foldl f t)
  | [], _, _, recast => recast
  | x :: xs, s, t, recast => foldl each xs (each x s t recast)

/-- A look-up finds what it found in the first run. -/
theorem byId? {params : ParamList} (recast : Recast hs v s t) (id : Int) :
    params.byId? t id = params.byId? s id := IdList.find?_congr fun h _ => recast.id h

/-- What is listed in one run is listed in the other. -/
theorem has {params : ParamList} (recast : Recast hs v s t) (h : Handle) :
    params.has t h = params.has s h := by
  unfold ParamList.has ParamList.same?
  rw [recast.id, recast.byId?]

/-- A parameter has the stand-in that it had in the first run. -/
theorem standIn {params : ParamList} (recast : Recast params.toList v s t) (h : Handle) :
    standIn t params h = standIn s params h := by
  refine Expr.standIn_of_marks recast.id (fun k mem => ?_) h
  rw [recast.get k mem]
  exact ⟨rfl, rfl⟩

/-- What is eliminated has a representative, as in the first run. -/
theorem represented {params : ParamList} (recast : Recast params.toList v s t)
    (represented : Represented params s) : Represented params t := by
  intro h mem gone
  rw [recast.tag mem] at gone
  obtain ⟨r, memr, idr, kept⟩ := represented h mem gone
  refine ⟨r, memr, ?_, by rw [recast.tag memr]; exact kept⟩
  rw [recast.id, idr, recast.get h mem]

end Store.Recast

open Store (Recast)

variable {v : Handle → α} {s s' t : Store α} {params : ParamList}

/-! ## Merging again -/

namespace EqualGroup

/-- Eliminating a parameter does the same in both runs. -/
theorem recast_eliminate (recast : Recast params.toList v s t) (r id : Int) :
    Recast params.toList v (eliminate params r s id) (eliminate params r t id) := by
  unfold eliminate
  split
  next => exact recast
  next =>
    rw [recast.byId?]
    split
    next p _ =>
      have tagged : Recast params.toList v (s.setTag p substitutedTag) (t.setTag p substitutedTag) :=
        recast.modify p (fun _ => rfl) fun _ _ => rfl
      exact tagged.modify p (fun _ => rfl) fun _ _ => rfl
    next => exact recast

/-- Merging reads ids alone, so at other values it does the same. -/
theorem recast_merge {equations es : EquationList α} {dragged : List Int}
    {groups : List EqualGroup} (recast : Recast params.toList v s t)
    (merged : merge s params equations dragged = (.ok groups, es, s')) :
    ∃ t', merge t params equations dragged = (.ok groups, es, t') ∧
      Recast params.toList v s' t' := by
  have bound : ∀ e : Equation α, e.bound? t = e.bound? s := fun e => by
    unfold Equation.bound?
    rw [funext recast.id]
  unfold merge at merged ⊢
  rw [collect_congr [] fun e _ => bound e]
  split at merged
  next => simp at merged
  next pairs l collected =>
    simp only [Prod.mk.injEq, Except.ok.injEq] at merged
    obtain ⟨rfl, rfl, rfl⟩ := merged
    refine ⟨_, rfl, recast.foldl (fun g _ _ recast => ?_) _⟩
    exact recast.foldl (fun id _ _ recast => recast_eliminate recast g.representative id) _

end EqualGroup

/-! ## Resetting and writing back again -/

/-- Resetting again leaves the same problem, and the same scratch at the values of the moment. -/
theorem recast_resetScratch {p q : Problem α} {s t : Store α} (frame : Problem.Frame p s q t) :
    (q.resetScratch t).1 = (p.resetScratch s).1 ∧
      Recast p.params.toList t.value (p.resetScratch s).2 (q.resetScratch t).2 := by
  have first := (Problem.resetScratch_frame p s).store
  have second := (Problem.resetScratch_frame q t).store
  obtain ⟨settings, params, equations, dragged⟩ := p
  obtain ⟨settings', params', equations', dragged'⟩ := q
  obtain ⟨rfl, rfl, rfl, same, within⟩ := frame
  have clear : equations'.clearTags = equations.clearTags :=
    EquationList.clearTags_of_untagged same
  refine ⟨congrArg (Problem.mk settings' params' · dragged') clear, fun h => ?_, fun h => ?_,
    fun h mem => ?_⟩
  · rw [second.id, within.id, first.id]
  · by_cases mem : h ∈ params'.toList
    · have get : ((Problem.mk settings' params' equations' dragged').resetScratch t).2.get h = _ :=
        Problem.get_resetParams mem t
      unfold Store.value
      rw [get]
    · exact second.value mem
  · have id : (t.get h).id = (s.get h).id := within.id h
    have symbol := within.symbol h
    show (Problem.resetParams params' t).get h =
      { (Problem.resetParams params' s).get h with value := t.value h }
    rw [Problem.get_resetParams mem, Problem.get_resetParams mem]
    simp only [id, symbol]
    rfl

/-- Once written back, a parameter has the value of its stand-in. -/
theorem value_standIn_writeBack {h : Handle} (sorted : IdList.Sorted s.id params)
    (represented : Represented params s) (mem : h ∈ params.toList) :
    (Problem.writeBack params s).value (standIn s params h) =
      (Problem.writeBack params s).value h := by
  have own : (s.get (standIn s params h)).isSubstituted = false :=
    Param.not_isSubstituted_iff.mpr (represented.tag_standIn sorted mem)
  have memr := Expr.standIn_mem sorted mem
  rw [value_writeBack sorted represented mem, value_writeBack sorted represented memr,
    Expr.standIn_kept sorted memr own]

/-- Writing back again changes no value. -/
theorem value_writeBack_again (sorted : IdList.Sorted s.id params)
    (represented : Represented params s)
    (still : ∀ h ∈ params.toList, s.value (standIn s params h) = s.value h) (h : Handle) :
    (Problem.writeBack params s).value h = s.value h := by
  by_cases mem : h ∈ params.toList
  · rw [value_writeBack sorted represented mem, still h mem]
  · exact (Problem.writeBack_within params s).value mem

section Solve

variable [One α] [Add α] [Sub α] [Mul α] [Div α] [Neg α] [LT α] [BEq α]
variable [DecidableLT α] [Elementary α] {tolerance : α} {group : Nat}

/-! ## Jacobians again -/

omit [LT α] [DecidableLT α] [BEq α] [Sub α] [Mul α] [Neg α] [Elementary α] in
/-- At other values a Jacobian can be written just as well, and has the same size. -/
theorem recast_write {tag limit : Nat} {equations : EquationList α} {j : Jacobian α}
    (recast : Recast params.toList v s t)
    (written : Jacobian.write tag s params equations limit = .ok j) :
    ∃ j', Jacobian.write tag t params equations limit = .ok j' ∧ j'.columns = j.columns ∧
      j'.rows.length = j.rows.length := by
  have columns : (params.toList.filter fun p => t.tag p == tag) =
      params.toList.filter fun p => s.tag p == tag :=
    List.filter_congr fun p hp => by rw [recast.tag hp]
  unfold Jacobian.write at written ⊢
  simp only [columns] at written ⊢
  split at written
  next => simp at written
  next few =>
    split at written
    next => simp at written
    next few' =>
      cases written
      rw [if_neg few, if_neg few']
      exact ⟨_, rfl, rfl, by rw [List.length_map, List.length_map]⟩

omit [BEq α] in
/-- A Jacobian is converged where its equations hold at the values of the stand-ins. -/
theorem converged_of_holdsAt {tag limit : Nat} {equations : EquationList α} {j : Jacobian α}
    (sorted : IdList.Sorted s.id params)
    (listed : ∀ e ∈ equations.toList, ∀ h ∈ e.expr.params, h ∈ params.toList)
    (written : Jacobian.write tag s params equations limit = .ok j)
    (holds : ∀ e ∈ equations.toList, e.tag = tag → e.HoldsAt tolerance params s) :
    converged tolerance (j.residuals s.value) = true := by
  unfold converged
  rw [List.all_eq_true]
  intro b hb
  obtain ⟨row, hrow, rfl⟩ := List.mem_map.mp hb
  rw [(Jacobian.write_ok written).2] at hrow
  obtain ⟨e, he, rfl⟩ := List.mem_map.mp hrow
  obtain ⟨mem, tagged⟩ := List.mem_filter.mp he
  have small := holds e mem (eq_of_beq tagged)
  unfold Equation.HoldsAt at small
  rw [← Expr.eval_frozen_standIn sorted (listed e mem) fun _ _ _ => rfl] at small
  exact decide_eq_true small

/-- A run that starts below the tolerance takes no step. -/
theorem Newton.run_converged (settings : Settings α) (dragged : List Int) {j : Jacobian α}
    (enough : j.rows.length ≤ j.columns.length)
    (conv : converged tolerance (j.residuals s.value) = true) :
    Newton.run settings dragged tolerance j s = (.ok 0, s) := by
  unfold Newton.run
  rw [if_neg (Nat.not_lt.mpr enough), if_pos conv]

/-! ## Groups again -/

variable {p q : Problem α} {e : Equation α} {h : Handle} {id : Int}

/-- Every equation that is not a difference of two parameters holds when the stand-ins have some
values. -/
def HoldsWith (tolerance : α) (v : Handle → α) (p : Problem α) (s : Store α) : Prop :=
  ∀ e ∈ p.equations.toList, e.expr.paramDifference? = none →
    Scalar.abs (e.expr.eval fun k => v (standIn s p.params k)) < tolerance

omit [One α] [BEq α] in
/-- Settling a parameter changes no stand-in, so what holds with some values goes on doing so. -/
theorem HoldsWith.settles (id : Int) (holds : HoldsWith tolerance v p s) (bound : group < substitutedTag)
    (kept : (s.get h).isSubstituted = false) (settles : Settles group h s s') :
    HoldsWith tolerance v { p with equations := p.equations.setTag id group } s' := by
  intro e' he' none
  obtain ⟨e, he, eq⟩ := EquationList.exists_of_untagged
    (EquationList.untagged_setTag p.equations id group).symm he'
  rw [← Equation.expr_of_untagged eq] at none ⊢
  simp only [settles.standIn bound kept]
  exact holds e he none

/-- Settling an unknown again takes no step, and settles it where it is. -/
theorem recast_solveAlone (stage : Stage tolerance group p s) (bound : group < substitutedTag)
    (found : p.equations.byId? id = some e) (lone : p.loneUnknown? s e = some h)
    (solved : { p with equations := p.equations.setTag id group }.solveAlone tolerance group h
      (s.setTag h group) = (.ok (), s'))
    (recast : Recast p.params.toList v s t) (holds : HoldsWith tolerance v p s) :
    ∃ t', { p with equations := p.equations.setTag id group }.solveAlone tolerance group h
        (t.setTag h group) = (.ok (), t') ∧ Recast p.params.toList v s' t' ∧
      HoldsWith tolerance v { p with equations := p.equations.setTag id group } s' := by
  have stage' := stage.step bound found lone solved
  obtain ⟨_, free, _⟩ := Problem.loneUnknown?_spec stage.ready (IdList.find?_some found).1 lone
  have kept := Store.kept_of_unmarked free
  have settles := settles_solveAlone (p := { p with equations := p.equations.setTag id group })
    stage.marked bound solved
  have holds' := holds.settles id bound kept settles
  have tagged : Recast p.params.toList v (s.setTag h group) (t.setTag h group) :=
    recast.modify h (fun _ => rfl) fun _ _ => rfl
  obtain ⟨j, u, written, enough, moved, _, rfl⟩ := Problem.solveAlone_ok solved
  obtain ⟨j', written', columns, rows⟩ := recast_write tagged written
  -- whatever the group selects holds at the values of the second run
  have small : ∀ e' ∈ (p.equations.setTag id group).toList, e'.tag = group →
      e'.HoldsAt tolerance p.params (t.setTag h group) := by
    intro e' he' eq
    have small := holds' e' he' (stage'.not_difference he' (eq ▸ Nat.ne_of_lt (by
      unfold substitutedTag at bound
      unfold usedUpTag
      omega)))
    unfold Equation.HoldsAt
    simp only [tagged.value, tagged.standIn, standIn_setTag bound kept]
    simp only [settles.standIn bound kept] at small
    exact small
  have sorted : IdList.Sorted (t.setTag h group).id p.params :=
    stage.ready.sorted.congr fun k _ => by rw [Store.id_setTag, recast.id]
  have listed : ∀ e' ∈ (p.equations.setTag id group).toList, ∀ k ∈ e'.expr.params,
      k ∈ p.params.toList := stage'.ready.listed
  have conv := converged_of_holdsAt sorted listed written' small
  refine ⟨(t.setTag h group).setKnown h true, ?_, ?_, holds'⟩
  · unfold Problem.solveAlone
    rw [written']
    simp only
    rw [Newton.run_converged _ _ (by rw [rows, columns]; exact enough) conv]
  · exact (tagged.of_moved moved).modify h (fun _ => rfl) fun _ _ => rfl

/-- **Repeating the chain of groups moves nothing** and leaves the same scratch. -/
theorem recast_solveAlonesFrom : ∀ {ids : List Int} {group next : Nat} {p q : Problem α}
    {s s' t : Store α}, Stage tolerance group p s → group + ids.length ≤ substitutedTag →
    Problem.solveAlonesFrom tolerance group ids p s = (.ok next, q, s') →
    Recast p.params.toList v s t → HoldsWith tolerance v p s →
    ∃ t', Problem.solveAlonesFrom tolerance group ids p t = (.ok next, q, t') ∧
      Recast p.params.toList v s' t' ∧ HoldsWith tolerance v q s'
  | [], group, next, p, q, s, s', t, _, _, solved, recast, holds => by
    cases solved
    exact ⟨t, rfl, recast, holds⟩
  | id :: ids, group, next, p, q, s, s', t, stage, few, solved, recast, holds => by
    rw [List.length_cons] at few
    -- which equation is solved alone, and for what, does not depend on values
    have lone : (p.equations.byId? id).bind (p.loneUnknown? t) =
        (p.equations.byId? id).bind (p.loneUnknown? s) := by
      cases p.equations.byId? id with
      | none => rfl
      | some e =>
        exact Problem.loneUnknown?_congr (fun k _ => ⟨recast.has k, recast.id k⟩) recast.byId?
          fun k mem => recast.tag mem
    unfold Problem.solveAlonesFrom at solved ⊢
    rw [lone]
    split at solved
    next unknown =>
      exact recast_solveAlonesFrom stage (by omega) solved recast holds
    next h unknown =>
      obtain ⟨e, found, lone⟩ := Option.bind_eq_some_iff.mp unknown
      simp only at solved ⊢
      split at solved
      next => simp at solved
      next u solvedAlone =>
        have bound : group < substitutedTag := by omega
        obtain ⟨u', solvedAlone', recast', holds'⟩ :=
          recast_solveAlone stage bound found lone solvedAlone recast holds
        rw [solvedAlone']
        exact recast_solveAlonesFrom (stage.step bound found lone solvedAlone) (by omega) solved
          recast' holds'

/-- The groups of a solve change no stand-in. -/
theorem standIn_solveAlonesFrom {ids : List Int} {next : Nat} (stage : Stage tolerance group p s)
    (few : group + ids.length ≤ substitutedTag)
    (solved : Problem.solveAlonesFrom tolerance group ids p s = (.ok next, q, s')) (k : Handle) :
    standIn s' q.params k = standIn s p.params k := by
  refine invariant_solveAlonesFrom
    (motive := fun q t => standIn t q.params k = standIn s p.params k)
    (fun bound kept settles same => ?_) stage few solved rfl
  exact (settles.standIn bound kept k).trans same

/-- What is satisfied where every parameter has the value of its stand-in after some groups holds with
these values before them, since groups change no stand-in. -/
theorem Stage.holdsWith {ids : List Int} {next : Nat} (stage : Stage tolerance group p s)
    (few : group + ids.length ≤ substitutedTag)
    (solved : Problem.solveAlonesFrom tolerance group ids p s = (.ok next, q, s'))
    (still : ∀ h ∈ p.params.toList, t.value (standIn s' q.params h) = t.value h)
    (satisfied : ∀ e ∈ p.equations.toList, e.Satisfied tolerance t) :
    HoldsWith tolerance t.value p s := by
  intro e he none
  have small := satisfied e he
  unfold Equation.Satisfied at small
  rw [none] at small
  simp only [← standIn_solveAlonesFrom stage few solved]
  rw [Expr.eval_congr e.expr fun k hk => still k (stage.ready.listed e he k hk)]
  exact small

variable [LE α] [DecidableLE α]

/-! ## The main system again -/

/-- The main system is solved again without a step, unless its equations are found to depend on each
other. -/
theorem recast_solveTogether {j : Jacobian α} {n : Nat} (stage : Stage tolerance group p s)
    (solved : p.solveTogether tolerance s = (.ok (j, n), s'))
    (recast : Recast p.params.toList v s t) (holds : HoldsWith tolerance v p s) :
    (∃ j', p.solveTogether tolerance t = (.ok (j', 0), t) ∧
        j'.columns.length = j.columns.length ∧ j'.rows.length = j.rows.length) ∨
      ∃ rank, rank ≠ j.rows.length ∧
        p.solveTogether tolerance t = (.error (.dependent ⟨rank, j.rows.length⟩), t) := by
  obtain ⟨written, _, ran⟩ := solveTogether_ok solved
  obtain ⟨j', written', columns, rows⟩ := recast_write recast written
  have small : ∀ e ∈ p.equations.toList, e.tag = 0 → e.HoldsAt tolerance p.params t := by
    intro e he eq
    have small := holds e he (stage.not_difference he (by rw [eq]; decide))
    unfold Equation.HoldsAt
    simp only [recast.value, recast.standIn]
    exact small
  have sorted : IdList.Sorted t.id p.params := stage.ready.sorted.congr fun k _ => recast.id k
  have conv := converged_of_holdsAt sorted stage.ready.listed written' small
  have run := Newton.run_converged p.settings p.dragged
    (by rw [rows, columns]; exact (Newton.run_ok ran).1) conv
  unfold Problem.solveTogether
  rw [written']
  simp only
  by_cases independent : Linear.rank p.settings.rankThreshold (j'.matrix t.value) = j'.rows.length
  · rw [if_neg (not_not_intro independent), run]
    exact Or.inl ⟨j', rfl, by rw [columns], rows⟩
  · rw [if_pos independent, ← rows]
    exact Or.inr ⟨_, independent, rfl⟩

/-- Written back after the main system, a parameter has the value of its stand-in. -/
theorem Stage.value_writeBack_standIn {j : Jacobian α} {n : Nat} (last : Stage tolerance group p s)
    (together : p.solveTogether tolerance s = (.ok (j, n), s')) (mem : h ∈ p.params.toList) :
    (Problem.writeBack p.params s').value (standIn s p.params h) =
      (Problem.writeBack p.params s').value h := by
  have moved := (holdsAt_of_solveTogether last together).1
  rw [← standIn_of_moved moved]
  exact value_standIn_writeBack (last.ready.sorted.congr fun k _ => moved.id k)
    (last.marked.of_moved moved).represented mem

/-! ## The whole solve again -/

/-- Where the problem is reset and merged as before, what remains is solved again. -/
theorem solve_of_reset {rough : Bool} {groups : List EqualGroup} {equations : EquationList α}
    (frame : Problem.Frame p s q t) (reset : (q.resetScratch t).1 = (p.resetScratch s).1)
    (merged : EqualGroup.merge (q.resetScratch t).2 p.params (p.resetScratch s).1.equations p.dragged =
      (.ok groups, equations, s')) :
    q.solve rough t = { p with equations }.solveMerged (p.settings.tolerance rough)
      (EqualGroup.eliminated groups) s' := by
  have merged' : EqualGroup.merge (q.resetScratch t).2 (q.resetScratch t).1.params
      (q.resetScratch t).1.equations (q.resetScratch t).1.dragged = (.ok groups, equations, s') := by
    rw [reset]
    exact merged
  unfold Problem.solve
  simp only [merged']
  rw [reset, frame.settings]
  rfl

/-- A ready problem that was solved is solved again without moving anything. -/
theorem solve_again {rough : Bool} {report : Report} (ready : p.Ready s)
    (few : p.equations.size ≤ 10000) (solved : p.solve rough s = (.ok report, q, t)) :
    (∀ h, (q.solve rough t).2.2.value h = t.value h) ∧
      ((q.solve rough t).1 = .ok { report with iterations := 0 } ∨
        ∃ rank, rank ≠ report.equations ∧
          (q.solve rough t).1 = .error (.dependent ⟨rank, report.equations⟩)) := by
  have satisfied := satisfied_of_ready ready few solved
  have frame : Problem.Frame p s q t := by
    have := Problem.solve_frame p rough s
    rw [solved] at this
    exact this
  obtain ⟨reset, recast⟩ := recast_resetScratch frame
  obtain ⟨groups, equations, s₁, alone, s₂, j, steps, s₃, merged, alones, together, back, rfl⟩ :=
    solve_ok solved
  obtain ⟨group, last⟩ := stage_of_phases ready few merged alones
  obtain ⟨next, rfl, first, bound, chain⟩ := chain_of_phases ready few merged alones
  have still : ∀ h ∈ q.params.toList, t.value (standIn s₂ q.params h) = t.value h := by
    rw [back]
    exact fun h mem => last.value_writeBack_standIn together mem
  have satisfied₁ : ∀ e ∈ equations.toList, e.Satisfied (p.settings.tolerance rough) t := by
    have same := (Problem.solveAlones_frame { p with equations } (p.settings.tolerance rough)
      s₁).equations
    rw [alones, frame.equations] at same
    intro e he
    obtain ⟨e₀, he₀, eq⟩ := EquationList.exists_of_untagged same he
    exact (satisfied e₀ he₀).of_untagged eq
  have holds₁ := first.holdsWith bound chain (frame.params ▸ still) satisfied₁
  -- the phases of the second solve, at the values of the end
  obtain ⟨t₁, merged', recast₁⟩ := EqualGroup.recast_merge recast merged
  obtain ⟨t₂, chain', recast₂, holds₂⟩ := recast_solveAlonesFrom first bound chain recast₁ holds₁
  rw [← frame.params] at recast₂
  have alones' : { p with equations }.solveAlones (p.settings.tolerance rough) t₁ =
      (.ok (next - 1), q, t₂) := by
    unfold Problem.solveAlones
    rw [chain']
  rw [solve_of_reset frame reset merged']
  unfold Problem.solveMerged
  rw [alones']
  simp only
  rcases recast_solveTogether last together recast₂ holds₂ with
    ⟨j', again, columns, rows⟩ | ⟨rank, dependent, again⟩
  · rw [again]
    have back' := value_writeBack_again (last.ready.sorted.congr fun k _ => recast₂.id k)
      (recast₂.represented last.marked.represented) fun h mem => by
        rw [recast₂.standIn, recast₂.value, recast₂.value, still h mem]
    refine ⟨fun h => (back' h).trans (recast₂.value h), Or.inl ?_⟩
    simp only [columns, rows]
  · rw [again]
    exact ⟨recast₂.value, Or.inr ⟨rank, dependent, rfl⟩⟩

/-- **Solving a solved problem moves nothing.** The second solve reports what the first one did, but
for the steps, of which it takes none; or its main system is found to be dependent at the values that
were left, whatever scratch the parameters have by then. -/
theorem unmoved_of_solve_twice {problem : Problem α} {s₀ t' : Store α} {equations : EquationList α}
    {dragged : List Handle} {rough : Bool} {report : Report}
    (own : OwnIds s₀ (Problem.mentioned equations)) (few : equations.size ≤ 10000)
    (loaded : problem.load s₀ equations dragged = (.ok (), p)) (ids : ∀ h, s.id h = s₀.id h)
    (solved : p.solve rough s = (.ok report, q, t))
    (same : ∀ h, t'.id h = t.id h ∧ t'.value h = t.value h ∧ (t'.get h).symbol = (t.get h).symbol) :
    (∀ h, (q.solve rough t').2.2.value h = t'.value h) ∧
      ((q.solve rough t').1 = .ok { report with iterations := 0 } ∨
        ∃ rank, rank ≠ report.equations ∧
          (q.solve rough t').1 = .error (.dependent ⟨rank, report.equations⟩)) := by
  obtain ⟨ready, rfl, _⟩ := Problem.ready_of_loaded own loaded ids
  have frame := Problem.solve_frame p rough s
  rw [solved] at frame
  obtain ⟨values, outcome⟩ := solve_again ready few solved
  obtain ⟨result, _, agree⟩ := Problem.solve_congr (fun h _ => same h) (frame.ready ready) rough
  rw [result]
  refine ⟨fun h => ?_, outcome⟩
  by_cases mem : h ∈ q.params.toList
  · rw [agree.value mem, values, (same h).2.1]
  · exact (Problem.solve_frame q rough t').store.value mem

end Solve

/-- Three equations for four parameters are solved twice, and the second time nothing moves. -/
theorem unmoved_pinnedSum : ∃ p report q t,
    ({ settings := Settings.standard } : Problem Float).load fourParams pinnedSum [⟨0⟩] =
      (.ok (), p) ∧
    p.solve false fourParams = (.ok report, q, t) ∧ report.iterations = 1 ∧ report.alone = 1 ∧
    report.eliminated = 1 ∧ (∀ h, (q.solve false t).2.2.value h = t.value h) ∧
    (q.solve false t).1 = .ok { report with iterations := 0 } := by
  have own : OwnIds fourParams (Problem.mentioned pinnedSum) :=
    ⟨by decide +kernel, by decide +kernel⟩
  obtain ⟨params, loaded, _⟩ := Problem.load_ok { settings := Settings.standard } own [⟨0⟩]
  have first : ((({ settings := Settings.standard } : Problem Float).load fourParams pinnedSum
      [⟨0⟩]).2.solve false fourParams).1.toOption.map
      (fun r => (r.iterations, r.alone, r.eliminated)) = some (1, 1, 1) := by
    decide +kernel
  have second : ((({ settings := Settings.standard } : Problem Float).load fourParams pinnedSum
      [⟨0⟩]).2.solve false fourParams |>.2.1.solve false
      ((({ settings := Settings.standard } : Problem Float).load fourParams pinnedSum
        [⟨0⟩]).2.solve false fourParams).2.2).1.toOption.isSome = true := by
    decide +kernel
  rw [loaded] at first second
  obtain ⟨report, q, t, solved, counts⟩ := Problem.solve_of_toOption first
  simp only [Prod.mk.injEq] at counts
  rw [solved] at second
  have few : pinnedSum.size ≤ 10000 := by decide
  have ids : ∀ h, fourParams.id h = fourParams.id h := fun _ => rfl
  obtain ⟨values, outcome⟩ := unmoved_of_solve_twice own few loaded ids solved
    fun h => ⟨rfl, rfl, rfl⟩
  have again := outcome.resolve_right fun ⟨rank, _, error⟩ => by
    rw [error] at second
    simp [Except.toOption] at second
  exact ⟨_, report, q, t, loaded, solved, counts.1, counts.2.1, counts.2.2, values, again⟩

end SketchSolver

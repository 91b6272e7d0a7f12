import SketchSolver.Proofs.Problem.LoneGroups
import SketchSolver.Proofs.Problem.Resolving

/-!
# Groups of equations that hold already

An equation that holds already is solved alone in no step, and its unknown is settled where
it is (`solveAlone_of_holds`). `Queued` says of some equations with an unknown each that all
of them hold and could be solved alone. A group for the first of them leaves the others
queued (`Queued.step`). So a chain goes through the whole queue and uses a number for each
equation, as long as there are numbers that are not reserved (`Queued.run`).

A queue is a list of pairs, an equation with the parameter that it would be solved for. No
equation and no parameter occurs twice in it. A group tags one equation and one parameter and
settles the latter, so another equation in the queue still finds itself untagged and its own
parameter not taken. That it is still the only one it mentions is a matter of ids, which stay
(`Problem.loneUnknown?_kept`).

This is how a long run of a solve can be followed without evaluating it. The state after any
number of groups is described by what is left of the queue, and the induction is on the list.

Values stay as they are all along, because an equation that holds makes Newton's method stop
before its first step. Nothing has to be assumed about arithmetic for this but that the
residual is below the tolerance at the start.
-/

namespace SketchSolver

open SketchSolver.Expr (standIn)

variable {α : Type} [Zero α] {p q : Problem α} {s t : Store α} {e : Equation α} {h : Handle}
variable {group : Nat}

/-- An equation can still be solved alone while ids and the tag of its unknown stay. -/
theorem Problem.loneUnknown?_kept (lone : p.loneUnknown? s e = some h)
    (params : q.params = p.params) (ids : ∀ k, t.id k = s.id k) (tag : t.tag h = s.tag h) :
    q.loneUnknown? t e = some h := by
  have id : t.id = s.id := funext ids
  have referenced : e.expr.referenced t p.params = e.expr.referenced s p.params := by
    refine Expr.referenced_congr fun k _ => ⟨?_, ids k⟩
    unfold ParamList.has ParamList.same? ParamList.byId?
    rw [id]
  unfold Problem.loneUnknown? at lone ⊢
  rw [params, referenced]
  split at lone
  next => simp at lone
  next free =>
    rw [if_neg free]
    split at lone
    next id' _ =>
      obtain ⟨found, free⟩ := Option.filter_eq_some_iff.mp lone
      refine Option.filter_eq_some_iff.mpr ⟨?_, by rw [tag]; exact free⟩
      unfold ParamList.byId? at found ⊢
      rw [id]
      exact found
    next => simp at lone

/-- An equation that is a free parameter can be solved alone for it. -/
theorem Problem.loneUnknown?_param (ready : p.Ready s) (mem : h ∈ p.params.toList)
    (expr : e.expr = .param h) (untaken : e.tag = 0) (free : s.tag h = 0) :
    p.loneUnknown? s e = some h := by
  have single : e.expr.referenced s p.params = .single (s.id h) := by
    rw [expr]
    unfold Expr.referenced
    rw [if_pos (ready.has mem)]
  unfold Problem.loneUnknown?
  rw [if_neg (not_not_intro untaken), single]
  refine Option.filter_eq_some_iff.mpr ⟨?_, beq_iff_eq.mpr free⟩
  exact (ParamList.byId?_eq_some_iff ready.sorted).mpr ⟨mem, rfl⟩

/-- Settling a parameter where it is. -/
theorem settles_setKnown (group : Nat) (h : Handle) (s : Store α) :
    Settles group h s ((s.setTag h group).setKnown h true) := by
  intro k
  have value : ((s.setTag h group).setKnown h true).value h = s.value h := by
    unfold Store.value
    rw [Store.get_setKnown, if_pos rfl, Store.get_setTag, if_pos rfl]
  rw [value, Store.get_setKnown, Store.get_setTag, Store.get_setTag, if_pos rfl]
  split
  next => rfl
  next => rfl

/-- Taking and settling a parameter leaves its value alone. -/
theorem value_setTag_setKnown (group : Nat) (h : Handle) (s : Store α) (k : Handle) :
    ((s.setTag h group).setKnown h true).value k = s.value k := by
  unfold Store.value
  rw [Store.get_setKnown, Store.get_setTag, Store.get_setTag, if_pos rfl]
  split
  next eq => rw [eq]
  next => rfl

section Solve

variable [One α] [Add α] [Sub α] [Mul α] [Div α] [Neg α] [LT α] [BEq α]
variable [DecidableLT α] [Elementary α] {tolerance : α} {g : LoneGroup α} {id : Int}

omit [One α] [BEq α] in
/-- Whether an equation holds depends on stand-ins and values. -/
theorem Equation.HoldsAt.congr {params : ParamList} (holds : e.HoldsAt tolerance params s)
    (stand : ∀ k, standIn t params k = standIn s params k) (value : ∀ k, t.value k = s.value k) :
    e.HoldsAt tolerance params t := by
  unfold Equation.HoldsAt at holds ⊢
  simp only [stand, value]
  exact holds

/-- **An equation that holds already is solved alone in no step**, in a group on its own. -/
theorem solveAlone_of_holds (ready : g.problem.Ready g.store) (columns : g.columns = [g.unknown])
    (selected : g.selected = [{ g.equation with tag := g.number }])
    (limit : 1 ≤ g.problem.settings.maxUnknowns)
    (holds : g.equation.HoldsAt tolerance g.problem.params g.store) :
    g.problem.solveAlone tolerance g.number g.unknown g.store =
      (.ok (), g.store.setKnown g.unknown true) := by
  have written := LoneGroup.jacobian_eq_ok (g := g) (by rw [columns]; exact limit)
    (by rw [selected]; exact limit)
  have rows : ∀ e ∈ g.problem.equations.toList, e.tag = g.number →
      e.HoldsAt tolerance g.problem.params g.store := by
    intro e he tagged
    have mem : e ∈ g.selected := List.mem_filter.mpr ⟨he, beq_iff_eq.mpr tagged⟩
    rw [selected, List.mem_singleton] at mem
    rw [mem]
    exact holds
  have conv := converged_of_holdsAt ready.sorted ready.listed written rows
  have ran := Newton.run_converged g.problem.settings g.problem.dragged
    (by rw [columns, selected]; exact Nat.le_refl 1) conv
  unfold LoneGroup.jacobian at written
  unfold Problem.solveAlone
  rw [written]
  simp only
  rw [ran]

/-- Some equations hold and can each be solved alone, for an unknown of its own. -/
structure Queued (tolerance : α) (queue : List (Equation α × Handle)) (p : Problem α)
    (s : Store α) : Prop where
  found : ∀ a ∈ queue, p.equations.byId? a.1.id = some a.1
  free : ∀ a ∈ queue, p.loneUnknown? s a.1 = some a.2
  holds : ∀ a ∈ queue, a.1.HoldsAt tolerance p.params s
  apart : queue.Pairwise fun a b => a.1.id ≠ b.1.id ∧ a.2 ≠ b.2

namespace Queued

variable {queue later : List (Equation α × Handle)} {a : Equation α × Handle}
variable {out : Handle → Prop}

omit [One α] [BEq α] in
/-- The first equation of a queue makes a group. -/
theorem loneGroup? (queued : Queued tolerance (a :: queue) p s) (group : Nat) :
    p.loneGroup? s group a.1.id =
      some ⟨group, a.1, a.2, { p with equations := p.equations.setTag a.1.id group },
        s.setTag a.2 group⟩ :=
  Problem.loneGroup?_eq_some_iff.mpr
    ⟨a.1, a.2, queued.found a List.mem_cons_self, queued.free a List.mem_cons_self, rfl⟩

/-- **The first group of a queue is solved, and leaves the others queued.** -/
theorem step (queued : Queued tolerance (a :: queue) p s) (tagging : Tagging out group p s)
    (sorted : IdList.Sorted Equation.id p.equations) (limit : 1 ≤ p.settings.maxUnknowns)
    (bound : group < substitutedTag) :
    { p with equations := p.equations.setTag a.1.id group }.solveAlone tolerance group a.2
        (s.setTag a.2 group) = (.ok (), (s.setTag a.2 group).setKnown a.2 true) ∧
      Queued tolerance queue { p with equations := p.equations.setTag a.1.id group }
        ((s.setTag a.2 group).setKnown a.2 true) := by
  have lone := queued.loneGroup? group
  have settles := settles_setKnown group a.2 s
  -- the unknown is not taken, hence not eliminated, and no stand-in changes when it is settled
  have kept : (s.get a.2).isSubstituted = false := by
    have he := (IdList.find?_some (queued.found a List.mem_cons_self)).1
    have free := Problem.loneUnknown?_spec tagging.ready he (queued.free a List.mem_cons_self)
    exact Store.kept_of_unmarked free.2.1
  have stand : ∀ k, standIn ((s.setTag a.2 group).setKnown a.2 true) p.params k =
      standIn s p.params k := settles.standIn bound kept
  obtain ⟨apart, rest⟩ := List.pairwise_cons.mp queued.apart
  constructor
  · -- the number is below both reserved tags, so the group is on its own
    refine solveAlone_of_holds (tagging.take lone).ready
      ((tagging.columns_iff lone).mpr ?_) ((tagging.selected_iff lone).mpr ?_) limit ?_
    · intro reserved
      exact absurd reserved.1 (Nat.ne_of_lt bound)
    · intro reserved
      have eq := reserved.1
      unfold usedUpTag at eq
      unfold substitutedTag at bound
      omega
    · refine (queued.holds a List.mem_cons_self).congr (standIn_setTag bound kept) fun k => ?_
      unfold Store.value
      show ((s.setTag a.2 group).get k).value = _
      rw [Store.get_setTag]
      split
      next eq => rw [eq]
      next => rfl
  · -- the group tags another equation and another unknown than those that wait
    refine ⟨fun b mem => ?_, fun b mem => ?_, fun b mem => ?_, rest⟩
    · exact EquationList.byId?_setTag_ne sorted (queued.found a List.mem_cons_self)
        (apart b mem).1.symm (queued.found b (List.mem_cons_of_mem a mem))
    · refine Problem.loneUnknown?_kept (queued.free b (List.mem_cons_of_mem a mem)) rfl
        settles.id (settles.tag_other (apart b mem).2.symm)
    · exact (queued.holds b (List.mem_cons_of_mem a mem)).congr stand
        (value_setTag_setKnown group a.2 s)

/-- **A chain of groups goes through a queue**, and what is queued after it still is. -/
theorem run : ∀ {queue : List (Equation α × Handle)} {group : Nat} {p : Problem α} {s : Store α},
    Queued tolerance (queue ++ later) p s → Tagging out group p s →
    IdList.Sorted Equation.id p.equations → 1 ≤ p.settings.maxUnknowns →
    group + queue.length ≤ substitutedTag →
    ∃ q t, Problem.solveAlonesFrom tolerance group (queue.map (·.1.id)) p s =
        (.ok (group + queue.length), q, t) ∧ Queued tolerance later q t
  | [], group, p, s, queued, _, _, _, _ => ⟨p, s, rfl, queued⟩
  | a :: queue, group, p, s, queued, tagging, sorted, limit, few => by
    rw [List.length_cons] at few ⊢
    rw [List.cons_append] at queued
    have lone := queued.loneGroup? group
    obtain ⟨solved, rest⟩ := queued.step tagging sorted limit (by omega)
    obtain ⟨q, t, ran, queued'⟩ := run rest (tagging.step lone solved)
      (EquationList.sorted_of_untagged (EquationList.untagged_setTag p.equations a.1.id group) sorted) limit (by omega)
    refine ⟨q, t, ?_, queued'⟩
    rw [List.map_cons, Problem.solveAlonesFrom_loneGroup lone]
    simp only
    rw [solved]
    simp only
    rw [ran]
    have numbers : group + 1 + queue.length = group + (queue.length + 1) := by omega
    rw [numbers]

end Queued

end Solve

end SketchSolver

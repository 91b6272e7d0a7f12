import Mathlib.Data.Finset.Card
import SketchSolver.Expr.Freeze

/-!
# Which listed ids an expression mentions

`Expr.referenced` folds a tree into one of three answers. It is the set of the listed ids at
the leaves (`Expr.mentionedIds`) that it tells, as far as three answers can tell sets apart:
of a set with two ids or more they only say that it is one.

An answer `Tells` a set. Answers of operands are put together as their sets are
(`Referenced.Tells.union`), so by induction on the tree the answer tells the whole set
(`Expr.tells_referenced`), however the tree is nested and however often an id comes again.
Since no set is told by two answers, the answer is known from the set alone
(`Expr.referenced_iff`).

The case to look at is an operator whose operands mention one id each. The answer is that id
if they mention the same one, and that there are several if not; comparing the two is the only
place in which ids are looked at. An operand that mentions several makes the whole mention
several, and one that mentions none changes nothing.

Parameters that are not listed do not count, and parameters are told apart by their ids. So
two different parameters count as one if they have the same id and the list has it.

The set is finite and has decidable membership, which is why it is a `Finset`: its size is
what the three answers are about.
-/

namespace SketchSolver

namespace Referenced

/-- The answer that fits a set of ids. -/
def Tells : Referenced → Finset Int → Prop
  | none, ids => ids = ∅
  | single id, ids => ids = {id}
  | multiple, ids => 2 ≤ ids.card

variable {r r' : Referenced} {ids ids' : Finset Int}

theorem Tells.unique (h : r.Tells ids) (h' : r'.Tells ids) : r = r' := by
  -- sets that different answers tell have different numbers of ids, or different ids
  cases r <;> cases r' <;> simp only [Tells] at h h' <;> subst_vars <;> simp_all

/-- Two sets with different members make a set of two or more. -/
theorem two_le_card_union (some : ids.Nonempty) (some' : ids'.Nonempty)
    (other : ∀ id, ¬(ids = {id} ∧ ids' = {id})) : 2 ≤ (ids ∪ ids').card := by
  obtain ⟨id, mem⟩ := some
  obtain ⟨id', mem'⟩ := some'
  apply Decidable.byContradiction
  intro few
  have one : (ids ∪ ids').card ≤ 1 := by omega
  rw [Finset.card_le_one] at one
  have all : ∀ x ∈ ids ∪ ids', x = id := by
    intro x hx
    exact one x hx id (Finset.mem_union_left ids' mem)
  apply other id
  constructor
  · exact Finset.eq_singleton_iff_unique_mem.mpr
      ⟨mem, fun x hx => all x (Finset.mem_union_left ids' hx)⟩
  · have eq : id' = id := all id' (Finset.mem_union_right ids mem')
    exact Finset.eq_singleton_iff_unique_mem.mpr
      ⟨eq ▸ mem', fun x hx => all x (Finset.mem_union_right ids hx)⟩

/-- An answer other than that there is none tells a set with an id. -/
theorem Tells.nonempty (h : r.Tells ids) (some : r ≠ none) : ids.Nonempty := by
  cases r with
  | none => exact absurd rfl some
  | single id =>
    obtain rfl : ids = {id} := h
    exact Finset.singleton_nonempty id
  | multiple =>
    have many : 2 ≤ ids.card := h
    exact Finset.card_pos.mp (by omega)

/-- **Answers are put together as sets are.** -/
theorem Tells.union (h : r.Tells ids) (h' : r'.Tells ids') : (r.union r').Tells (ids ∪ ids') := by
  unfold Referenced.union
  split
  next =>
    obtain rfl : ids = ∅ := h
    rw [Finset.empty_union]
    exact h'
  next =>
    obtain rfl : ids' = ∅ := h'
    rw [Finset.union_empty]
    exact h
  next a b =>
    obtain rfl : ids = {a} := h
    obtain rfl : ids' = {b} := h'
    split
    next eq =>
      subst eq
      exact Finset.union_self {a}
    next ne =>
      refine two_le_card_union (Finset.singleton_nonempty a) (Finset.singleton_nonempty b) ?_
      intro id both
      have first := Finset.singleton_inj.mp both.1
      have second := Finset.singleton_inj.mp both.2
      exact ne (first.trans second.symm)
  next notNone notNone' notSingle =>
    refine two_le_card_union (h.nonempty notNone) (h'.nonempty notNone') ?_
    intro id both
    obtain ⟨rfl, rfl⟩ := both
    have told : (single id).Tells {id} := rfl
    exact notSingle id id (h.unique told) (h'.unique told)

end Referenced

namespace Expr

variable {α : Type} [Zero α]

/-- The different ids of the leaves that a list has. -/
def mentionedIds (s : Store α) (l : ParamList) (e : Expr α) : Finset Int :=
  ((e.params.filter (l.has s)).map s.id).toFinset

/-- The set has the ids of the listed leaves. -/
theorem mem_mentionedIds {s : Store α} {l : ParamList} {e : Expr α} {id : Int} :
    id ∈ e.mentionedIds s l ↔ ∃ p ∈ e.params, l.has s p = true ∧ s.id p = id := by
  unfold mentionedIds
  simp only [List.mem_toFinset, List.mem_map, List.mem_filter, and_assoc]

theorem mentionedIds_binary (s : Store α) (l : ParamList) (op : BinaryOp) (a b : Expr α) :
    (binary op a b).mentionedIds s l = a.mentionedIds s l ∪ b.mentionedIds s l := by
  show (((a.params ++ b.params).filter (l.has s)).map s.id).toFinset = _
  rw [List.filter_append, List.map_append, List.toFinset_append]
  rfl

/-- **The answer for an expression tells its listed ids.** -/
theorem tells_referenced (s : Store α) (l : ParamList) (e : Expr α) :
    (e.referenced s l).Tells (e.mentionedIds s l) := by
  induction e with
  | param p =>
    unfold referenced mentionedIds params
    split
    next has =>
      rw [List.filter_cons_of_pos has]
      rfl
    next absent =>
      rw [List.filter_cons_of_neg absent]
      rfl
  | const v => rfl
  | unary op a ih => exact ih
  | binary op a b iha ihb =>
    rw [mentionedIds_binary]
    exact iha.union ihb

/-- All listed parameters of an expression that mentions a single id have that id. -/
theorem referenced_single {s : Store α} {l : ParamList} {e : Expr α} {id : Int}
    (h : e.referenced s l = .single id) : ∀ p ∈ e.params, l.has s p = true → s.id p = id := by
  intro p hp has
  have told := tells_referenced s l e
  rw [h] at told
  have ids : e.mentionedIds s l = {id} := told
  have mem : s.id p ∈ e.mentionedIds s l := mem_mentionedIds.mpr ⟨p, hp, has, rfl⟩
  rw [ids] at mem
  exact Finset.mem_singleton.mp mem

/-- **An expression mentions none, one or several of the listed ids** exactly when there are so many
different ones among those of its leaves that the list has. -/
theorem referenced_iff (s : Store α) (l : ParamList) (e : Expr α) :
    (e.referenced s l = .none ↔ e.mentionedIds s l = ∅) ∧
    (∀ id, e.referenced s l = .single id ↔ e.mentionedIds s l = {id}) ∧
    (e.referenced s l = .multiple ↔ 2 ≤ (e.mentionedIds s l).card) := by
  have told := tells_referenced s l e
  have iff : ∀ r : Referenced, e.referenced s l = r ↔ r.Tells (e.mentionedIds s l) := by
    intro r
    constructor
    · intro eq
      rw [← eq]
      exact told
    · intro fits
      exact told.unique fits
  exact ⟨iff .none, fun id => iff (.single id), iff .multiple⟩

end Expr

end SketchSolver

import SketchSolver.Proofs.Equality.PairGroups
import SketchSolver.Proofs.StoreFrame
import SketchSolver.Proofs.TaggedEquations

/-!
# What merging does to equations and parameters

`EqualGroup.merge` succeeds or finds a pair bound twice. When it succeeds the equations that
bind a pair are tagged as used up and no other one changes (`merge_ok`), and a parameter is
eliminated exactly when its id is a member of a group without being the representative
(`get_represented`, `get_unrepresented`).

Whatever the outcome, the equations stay but for their tags, and parameters outside the list
are not touched (`merge_untagged`, `merge_within`).

Both loops of merging are followed here, the one over equations that collects pairs and the
one over groups that eliminates members, and each of them turns into a statement without
order. Collecting tags an equation as it passes, so after a failure the equations before the
one that repeats a pair are tagged and those after it are not; nobody reads these tags, since
the next solve clears them. After a success all equations between two parameters are tagged.

Eliminating looks members up in the list by their ids, and writes a tag and a representative.
It reads no tags, so the members of a group can be done in any order, and the groups too,
since no id is in two of them. What becomes of one parameter depends on its own id and on the
group of that id alone (`get_apply`).
-/

namespace SketchSolver

variable {α : Type}

/-- The equation as merging leaves it: used up when it equates two parameters. -/
def Equation.marked (e : Equation α) : Equation α :=
  if e.expr.paramDifference?.isSome then { e with tag := usedUpTag } else e

/-- Marking an equation leaves its expression as it is. -/
theorem Equation.marked_expr (e : Equation α) : e.marked.expr = e.expr := by
  unfold marked
  split <;> rfl

/-- An equation that was free is used up exactly when it equates two parameters. -/
theorem Equation.marked_tag {e : Equation α} (free : e.tag = 0) :
    e.marked.tag = if e.expr.paramDifference?.isSome then usedUpTag else 0 := by
  unfold marked
  split
  next => rfl
  next => exact free

variable [Zero α]

/-- The parameter in favour of a representative. -/
def Param.eliminated (representative : Int) (p : Param α) : Param α :=
  { p with tag := substitutedTag, representative }

/-- An equation binds a pair of ids exactly when it equates two parameters. -/
theorem Equation.bound?_isSome (s : Store α) (e : Equation α) :
    (e.bound? s).isSome = e.expr.paramDifference?.isSome := by
  unfold bound?
  rw [Option.isSome_map]

namespace EqualGroup

variable {s t : Store α} {params : ParamList} {equations es : EquationList α}
variable {dragged : List Int} {groups : List EqualGroup}

/-! ## Collecting pairs -/

/-- Collecting changes tags alone. -/
theorem collect_untagged (s : Store α) : ∀ (l : List (Equation α)) (pairs : List (Int × Int)),
    (collect s pairs l).2.map (·.untagged) = l.map (·.untagged)
  | [], _ => rfl
  | e :: l, pairs => by
    unfold collect
    split
    next =>
      simp only [List.map_cons]
      rw [collect_untagged s l pairs]
    next pair _ =>
      split
      next => rfl
      next =>
        simp only [List.map_cons]
        rw [collect_untagged s l]
        rfl

/-- When no pair comes twice, every equation is looked at and every pair is found. -/
theorem collect_ok {s : Store α} : ∀ {l : List (Equation α)} {pairs found : List (Int × Int)}
    {l' : List (Equation α)}, collect s pairs l = (.ok found, l') →
    found = pairs ++ l.filterMap (·.bound? s) ∧ l' = l.map (·.marked)
  | [], pairs, found, l', h => by
    cases h
    simp
  | e :: l, pairs, found, l', h => by
    have marked := Equation.bound?_isSome s e
    unfold collect at h
    split at h
    next unbound =>
      rw [unbound] at marked
      cases rest : collect s pairs l with
      | mk result l'' =>
        rw [rest] at h
        simp only [Prod.mk.injEq] at h
        obtain ⟨rfl, rfl⟩ := h
        obtain ⟨eq, rfl⟩ := collect_ok rest
        rw [List.filterMap_cons_none unbound, List.map_cons, Equation.marked, ← marked]
        exact ⟨eq, rfl⟩
    next pair bound =>
      rw [bound] at marked
      split at h
      next => simp at h
      next =>
        -- the pair is new, so the rest is collected with it among those known
        cases rest : collect s (pairs ++ [pair]) l with
        | mk result l'' =>
          rw [rest] at h
          simp only [Prod.mk.injEq] at h
          obtain ⟨rfl, rfl⟩ := h
          obtain ⟨eq, rfl⟩ := collect_ok rest
          rw [List.filterMap_cons_some bound, List.map_cons, Equation.marked, ← marked, eq,
            List.append_assoc]
          exact ⟨rfl, rfl⟩

/-- Collecting looks at the pairs that equations bind. -/
theorem collect_congr : ∀ {es : List (Equation α)} (pairs : List (Int × Int)),
    (∀ e ∈ es, e.bound? t = e.bound? s) → collect t pairs es = collect s pairs es
  | [], _, _ => rfl
  | e :: es, pairs, same => by
    have rest : ∀ pairs, collect t pairs es = collect s pairs es := fun pairs =>
      collect_congr pairs fun e' he => same e' (List.mem_cons_of_mem e he)
    unfold collect
    rw [same e List.mem_cons_self]
    simp only [rest]

/-! ## Eliminating parameters -/

/-- Eliminating a member writes to listed parameters only. -/
theorem eliminate_within (params : ParamList) (r : Int) (s : Store α) (id : Int) :
    Store.Within params.toList s (eliminate params r s id) := by
  unfold eliminate
  split
  next => exact .refl _ s
  next =>
    split
    next p found =>
      have mem := (IdList.find?_some found).1
      exact (Store.Within.setTag mem s _).trans (.setRepresentative mem _ _)
    next => exact .refl _ s

theorem apply_within (params : ParamList) (s : Store α) (g : EqualGroup) :
    Store.Within params.toList s (apply params s g) :=
  .foldl (fun id _ s => eliminate_within params g.representative s id) s

/-- The list is still in the order of ids. -/
theorem sorted_of_within (sorted : IdList.Sorted s.id params) {hs : List Handle}
    (h : Store.Within hs s t) : IdList.Sorted t.id params :=
  sorted.congr fun x _ => h.id x

/-- One member is eliminated, unless it represents the group. -/
theorem get_eliminate (sorted : IdList.Sorted s.id params) (r id : Int) (k : Handle) :
    (eliminate params r s id).get k =
      if id ≠ r ∧ k ∈ params.toList ∧ s.id k = id then (s.get k).eliminated r else s.get k := by
  unfold eliminate
  split
  next eq => rw [if_neg fun h => h.1 eq]
  next ne =>
    split
    next p found =>
      obtain ⟨mem, idp⟩ := IdList.find?_some found
      unfold Store.setRepresentative Store.setTag
      rw [Store.get_modify, Store.get_modify, Store.get_modify]
      by_cases hk : p = k
      · subst hk
        rw [if_pos rfl, if_pos rfl, if_pos ⟨ne, mem, idp⟩]
        rfl
      · rw [if_neg hk, if_neg hk, if_neg]
        rintro ⟨_, memk, idk⟩
        exact hk (sorted.eq_of_key_eq mem memk (idp.trans idk.symm))
    next missing =>
      rw [if_neg]
      rintro ⟨_, memk, idk⟩
      exact (IdList.find?_eq_none_iff sorted).mp missing k memk idk

/-- The members of a group are eliminated, but for the representative. -/
theorem get_foldl_eliminate (r : Int) (k : Handle) : ∀ (ids : List Int) (s : Store α),
    IdList.Sorted s.id params →
    (ids.foldl (eliminate params r) s).get k =
      if k ∈ params.toList ∧ s.id k ∈ ids ∧ s.id k ≠ r then (s.get k).eliminated r else s.get k
  | [], s, _ => by simp
  | id :: ids, s, sorted => by
    have within := eliminate_within params r s id
    rw [List.foldl_cons, get_foldl_eliminate r k ids _ (sorted_of_within sorted within),
      within.id, get_eliminate sorted]
    by_cases mem : k ∈ params.toList
    · by_cases eq : s.id k = id
      · by_cases rep : id = r
        · simp [eq, rep]
        · simp [mem, eq, rep, Param.eliminated]
      · simp [eq]
    · simp [mem]

/-- A group eliminates its members but one, and leaves other parameters as they are. -/
theorem get_apply (sorted : IdList.Sorted s.id params) (g : EqualGroup) (k : Handle) :
    (apply params s g).get k =
      if k ∈ params.toList ∧ s.id k ∈ g.members ∧ s.id k ≠ g.representative then
        (s.get k).eliminated g.representative
      else s.get k :=
  get_foldl_eliminate g.representative k g.members s sorted

/-- Applying groups writes to listed parameters only. -/
theorem foldl_apply_within (params : ParamList) (groups : List EqualGroup) (s : Store α) :
    Store.Within params.toList s (groups.foldl (apply params) s) :=
  .foldl (fun g _ s => apply_within params s g) s

/-- A parameter that every group passes over is as before. -/
theorem get_unrepresented {k : Handle} : ∀ {groups : List EqualGroup} {s : Store α},
    IdList.Sorted s.id params →
    (∀ g ∈ groups, k ∈ params.toList → s.id k ∈ g.members → s.id k = g.representative) →
    (groups.foldl (apply params) s).get k = s.get k
  | [], _, _, _ => rfl
  | g :: groups, s, sorted, passed => by
    have within := apply_within params s g
    have here : (apply params s g).get k = s.get k := by
      rw [get_apply sorted, if_neg]
      rintro ⟨mem, member, ne⟩
      exact ne (passed g List.mem_cons_self mem member)
    rw [List.foldl_cons, get_unrepresented (sorted_of_within sorted within), here]
    intro g' hg' mem
    rw [within.id]
    exact passed g' (List.mem_cons_of_mem g hg') mem

/-- A parameter that a group eliminates stays so, since no other group has its id. -/
theorem get_represented {k : Handle} {g : EqualGroup} : ∀ {groups : List EqualGroup}
    {s : Store α}, IdList.Sorted s.id params → g ∈ groups →
    (∀ g' ∈ groups, s.id k ∈ g'.members → g' = g) →
    k ∈ params.toList → s.id k ∈ g.members → s.id k ≠ g.representative →
    (groups.foldl (apply params) s).get k = (s.get k).eliminated g.representative
  | g₀ :: groups, s, sorted, hg, only, mem, member, ne => by
    have within := apply_within params s g₀
    have sorted' := sorted_of_within sorted within
    rw [List.foldl_cons]
    by_cases later : g ∈ groups
    · -- the group comes again, and eliminating twice is eliminating once
      rw [get_represented sorted' later
        (by rw [within.id]; exact fun g' hg' => only g' (List.mem_cons_of_mem g₀ hg')) mem
        (by rw [within.id]; exact member) (by rw [within.id]; exact ne), get_apply sorted]
      split
      next => rfl
      next => rfl
    · obtain rfl : g = g₀ := (List.mem_cons.mp hg).resolve_right later
      rw [get_unrepresented sorted' ?_, get_apply sorted, if_pos ⟨mem, member, ne⟩]
      intro g' hg' _ member'
      rw [within.id] at member'
      exact absurd (only g' (List.mem_cons_of_mem g hg') member' ▸ hg') later

/-! ## Merging -/

/-- The groups are those of the pairs that the equations bind. -/
theorem merge_ok (h : merge s params equations dragged = (.ok groups, es, t)) :
    groups = ofPairs dragged (equations.toList.filterMap (·.bound? s)) ∧
      es.toList = equations.toList.map (·.marked) ∧
      t = groups.foldl (apply params) s := by
  unfold merge at h
  split at h
  next => simp at h
  next pairs l collected =>
    simp only [Prod.mk.injEq, Except.ok.injEq] at h
    obtain ⟨rfl, rfl, rfl⟩ := h
    obtain ⟨found, rfl⟩ := collect_ok collected
    rw [found]
    exact ⟨rfl, rfl, rfl⟩

/-- Merging tags equations and does nothing else to them. -/
theorem merge_untagged (s : Store α) (params : ParamList) (equations : EquationList α)
    (dragged : List Int) :
    (merge s params equations dragged).2.1.toList.map (·.untagged) =
      equations.toList.map (·.untagged) := by
  have same := collect_untagged s equations.toList []
  unfold merge
  split
  next collected =>
    rw [collected] at same
    exact same
  next collected =>
    rw [collected] at same
    exact same

/-- Merging writes to listed parameters only. -/
theorem merge_within (s : Store α) (params : ParamList) (equations : EquationList α)
    (dragged : List Int) :
    Store.Within params.toList s (merge s params equations dragged).2.2 := by
  unfold merge
  split
  next => exact .refl _ s
  next => exact foldl_apply_within params _ s

end EqualGroup

end SketchSolver

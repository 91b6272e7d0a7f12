import SketchSolver.Problem.Basic
import SketchSolver.Proofs.ListedParams

/-!
# Loading a problem

A problem is loaded with equations whose parameters have been numbered: each has an id of its
own (`OwnIds`). Then loading cannot fail, and the list of the problem has every parameter that
an equation mentions, and no others (`load_ok`). That is what a solve starts from (`Ready`).

The list of a problem is built by ids. A parameter whose id is in the list counts as listed,
whichever parameter it is, and one whose id belongs to another one stops the loading. Both
are excluded by `OwnIds`, which is about the parameters that equations mention and about no
others: the same store may hold parameters without an id, and parameters of other spaces.

`Ready` is what the phases of a solve rely on, and what they keep. The list is sorted by ids,
so it can be searched; what is listed has an id at all; and it has every parameter that an
equation mentions, so that no look-up fails. It does not speak about values, tags or what is
settled, and so it is kept by everything that leaves ids alone (`Ready.congr`).

The parameters that are dragged are kept by their ids, and need not be mentioned by an
equation (`dragged_of_load`). Those that are not listed have no effect on a solve.
-/

namespace SketchSolver

variable {α : Type} [Zero α]

/-- The parameters have positive ids, and no two of them have the same. -/
structure OwnIds (s : Store α) (hs : List Handle) : Prop where
  positive : ∀ h ∈ hs, 0 < s.id h
  injective : ∀ h ∈ hs, ∀ k ∈ hs, s.id h = s.id k → h = k

namespace OwnIds

variable {s t : Store α} {hs ks : List Handle}

theorem mono (own : OwnIds s hs) (sub : ∀ h ∈ ks, h ∈ hs) : OwnIds s ks :=
  ⟨fun h mem => own.positive h (sub h mem),
    fun h mem k memk => own.injective h (sub h mem) k (sub k memk)⟩

/-- A parameter with an id of its own has an id. -/
theorem assigned (own : OwnIds s hs) {h : Handle} (mem : h ∈ hs) : s.id h ≠ unassigned := by
  have := own.positive h mem
  unfold unassigned
  omega

end OwnIds

namespace Problem

variable {s t : Store α} {l : ParamList}

/-- Parameters with ids of their own are all taken into the list. -/
theorem addMissing_ok : ∀ {ps : List Handle} {l : ParamList}, IdList.Sorted s.id l →
    OwnIds s (l.toList ++ ps) →
    ∃ l', addMissing s ps l = (none, l') ∧ IdList.Sorted s.id l' ∧
      ∀ k, k ∈ l'.toList ↔ k ∈ l.toList ∨ k ∈ ps
  | [], l, sorted, _ => ⟨l, rfl, sorted, fun k => by simp⟩
  | p :: ps, l, sorted, own => by
    have memp : p ∈ l.toList ++ p :: ps := List.mem_append_right _ List.mem_cons_self
    unfold addMissing
    by_cases has : l.has s p = true
    · rw [if_pos has]
      obtain ⟨k, memk, eq⟩ := ParamList.exists_of_has has
      -- who is listed under this id is the parameter itself, since no two share one
      obtain rfl := own.injective k (List.mem_append_left _ memk) p memp eq
      have own' : OwnIds s (l.toList ++ ps) := own.mono fun h hh => by
        rw [List.mem_append, List.mem_cons]
        exact (List.mem_append.mp hh).imp_right Or.inr
      obtain ⟨l', added, sorted', mem⟩ := addMissing_ok sorted own'
      refine ⟨l', added, sorted', fun h => ?_⟩
      rw [mem, List.mem_cons]
      constructor
      · exact fun hh => hh.imp_right Or.inr
      · rintro (hh | rfl | hh)
        · exact Or.inl hh
        · exact Or.inl memk
        · exact Or.inr hh
    · rw [if_neg has]
      have absent : p ∉ l.toList := fun mem =>
        has (ParamList.has_of_mem sorted mem (own.assigned memp))
      cases added : l.add? s p with
      | none =>
        obtain ⟨k, memk, eq⟩ := (IdList.insert?_eq_none_iff sorted).mp added
        -- its id cannot be taken, for then the one who has it would be the parameter
        obtain rfl := own.injective k (List.mem_append_left _ memk) p memp eq
        exact absurd memk absent
      | some l₁ =>
        have mem₁ : ∀ k, k ∈ l₁.toList ↔ k = p ∨ k ∈ l.toList := fun k =>
          IdList.mem_insert? sorted added
        have own₁ : OwnIds s (l₁.toList ++ ps) := own.mono fun h hh => by
          rw [List.mem_append, mem₁] at hh
          rw [List.mem_append, List.mem_cons]
          rcases hh with (rfl | hh) | hh
          · exact Or.inr (Or.inl rfl)
          · exact Or.inl hh
          · exact Or.inr (Or.inr hh)
        obtain ⟨l', added', sorted', mem⟩ :=
          addMissing_ok (IdList.insert?_sorted sorted added) own₁
        refine ⟨l', added', sorted', fun h => ?_⟩
        rw [mem, mem₁, List.mem_cons]
        exact or_assoc.trans or_left_comm

/-- The list of a problem finds every parameter that an equation mentions. -/
structure Ready (p : Problem α) (s : Store α) : Prop where
  sorted : IdList.Sorted s.id p.params
  assigned : ∀ h ∈ p.params.toList, s.id h ≠ unassigned
  listed : ∀ e ∈ p.equations.toList, ∀ h ∈ e.expr.params, h ∈ p.params.toList

namespace Ready

variable {p q : Problem α}

/-- Tags of equations do not matter, nor do values and scratch of parameters. -/
theorem congr (ready : p.Ready s) (params : q.params = p.params)
    (exprs : q.equations.toList.map (·.expr) = p.equations.toList.map (·.expr))
    (ids : ∀ h, t.id h = s.id h) : q.Ready t := by
  have id : t.id = s.id := funext ids
  refine ⟨by rw [params, id]; exact ready.sorted, fun h mem => ?_, fun e he h mem => ?_⟩
  · rw [ids]
    exact ready.assigned h (params ▸ mem)
  · have : e.expr ∈ p.equations.toList.map (·.expr) := exprs ▸ List.mem_map_of_mem he
    obtain ⟨e₀, he₀, eq⟩ := List.mem_map.mp this
    rw [params]
    exact ready.listed e₀ he₀ h (eq ▸ mem)

theorem has (ready : p.Ready s) {h : Handle} (mem : h ∈ p.params.toList) :
    p.params.has s h = true :=
  ParamList.has_of_mem ready.sorted mem (ready.assigned h mem)

end Ready

/-- The parameters that equations mention. -/
def mentioned (equations : EquationList α) : List Handle :=
  equations.toList.flatMap fun e => e.expr.params

/-- **Equations in numbered parameters can be loaded**, and the problem has their parameters. -/
theorem load_ok (p : Problem α) {equations : EquationList α}
    (own : OwnIds s (mentioned equations)) (dragged : List Handle) :
    ∃ params, p.load s equations dragged =
        (.ok (), { p with equations, params, dragged := dragged.map s.id }) ∧
      IdList.Sorted s.id params ∧ ∀ h, h ∈ params.toList ↔ h ∈ mentioned equations := by
  have own' : OwnIds s ((IdList.empty : ParamList).toList ++ mentioned equations) := own
  obtain ⟨params, added, sorted, mem⟩ := addMissing_ok IdList.sorted_empty own'
  refine ⟨params, ?_, sorted, fun h => ?_⟩
  · unfold load
    unfold mentioned at added
    simp only [added]
  · rw [mem]
    exact or_iff_right (List.not_mem_nil)

/-- The dragged ids of a loaded problem are those of the dragged parameters. -/
theorem dragged_of_load {p q : Problem α} {equations : EquationList α} {hs : List Handle}
    (loaded : p.load s equations hs = (.ok (), q)) : q.dragged = hs.map s.id := by
  unfold load at loaded
  simp only at loaded
  split at loaded
  next => simp at loaded
  next =>
    simp only [Prod.mk.injEq, true_and] at loaded
    rw [← loaded]

/-- What was loaded is ready to be solved. -/
theorem ready_of_load {p q : Problem α} {equations : EquationList α} {dragged : List Handle}
    (own : OwnIds s (mentioned equations))
    (loaded : p.load s equations dragged = (.ok (), q)) : q.Ready s := by
  obtain ⟨params, eq, sorted, mem⟩ := load_ok p own dragged
  rw [eq] at loaded
  cases loaded
  refine ⟨sorted, fun h hh => own.assigned ((mem h).mp hh), fun e he h hh => ?_⟩
  exact (mem h).mpr (List.mem_flatMap.mpr ⟨e, he, hh⟩)

/-- What was loaded stays ready while the ids stay. -/
theorem ready_of_loaded {p q : Problem α} {equations : EquationList α} {dragged : List Handle}
    (own : OwnIds s (mentioned equations)) (loaded : p.load s equations dragged = (.ok (), q))
    (ids : ∀ h, t.id h = s.id h) :
    q.Ready t ∧ q.equations = equations ∧ q.settings = p.settings := by
  have ready := ready_of_load own loaded
  obtain ⟨params, eq, _⟩ := load_ok p own dragged
  rw [eq] at loaded
  cases loaded
  exact ⟨ready.congr rfl rfl ids, rfl, rfl⟩

end Problem

end SketchSolver

import SketchSolver.Proofs.Space.Building
import SketchSolver.Proofs.Space.SolveFrame

/-!
# Spaces that match their constraints

The loaded problem, the list of parameters and the hosted constraints are kept apart, so they
can come apart. A space is `Matched` while the problem has the equations of its constraints
and its list finds every parameter of them.

A space does not stay matched by itself: all spaces write the ids of the parameters of the
sketch, and those of parameters that are not drawn. What does stay is `Settled`: the list is
what the space meets, without repetitions. Then a parameter of the sketch has the same id in
all spaces, because all of them meet the sketch first, and work on another space is
`Confined` to ids that this one does not depend on (`Settled.keep`).

To see what that rests on, take two spaces and a parameter that both meet. If it belongs to
an entity, it is among the parameters of the sketch, which come first in either list, and so
it has one position in both. If it belongs to an entity that was taken off, only constraints
have it. Then its position depends on the constraints before it, and the spaces may number
it apart; the other space keeps its id only if it does not have that parameter. Two spaces
that share such a parameter are the reason why entities are taken off together with all
constraints on them.

`Confined` is therefore relative to a list of parameters, those of the constraints that were
worked on: other parameters that are not drawn keep their ids, and those that are drawn
either all keep them or all have their positions among the parameters of the sketch. The
second disjunct comes from a space that was built, the first from one that was not.

`Worked` collects what all operations have in common that add and remove no constraint, and
each of them has a lemma that says so.
-/

namespace SketchSolver

variable {α : Type} [Zero α]

/-- The number of a met parameter is its place among those that were met before. -/
theorem Numbered.id_eq_idxOf {l : ParamList} {s : Store α} {ps qs : List Handle} {h : Handle}
    (numbered : Numbered l s) (list : l.toList = (ps ++ qs).eraseDups) (mem : h ∈ ps) :
    s.id h = ps.eraseDups.idxOf h + 1 := by
  have mem' : h ∈ ps.eraseDups := List.mem_eraseDups.mpr mem
  have inside := List.idxOf_lt_length_of_mem mem'
  rw [List.eraseDups_append] at list
  have bound : ps.eraseDups.idxOf h < l.items.size := by
    have := congrArg List.length list
    simp only [IdList.toList, Array.length_toList, List.length_append] at this
    omega
  have found : l.items[ps.eraseDups.idxOf h] = h := by
    have place : l.toList[ps.eraseDups.idxOf h]? = some h := by
      rw [list, List.getElem?_append_left inside, List.getElem?_eq_getElem inside,
        List.getElem_idxOf inside]
    rw [IdList.toList, Array.getElem?_toList, Array.getElem?_eq_getElem bound] at place
    exact Option.some.inj place
  have id := numbered _ bound
  rw [found] at id
  exact id

/-- The sketch after work on constraints with the given parameters: the same parameters are drawn, no
id has changed but theirs and those of the drawn ones, and the drawn ones are numbered either as
before or in the order in which they are drawn. -/
structure Sketch.Confined (ps : List Handle) (sk sk' : Sketch α) : Prop where
  params : sk'.params = sk.params
  ids : ∀ h, h ∉ sk.params → h ∉ ps → sk'.store.id h = sk.store.id h
  drawn : (∀ h ∈ sk.params, sk'.store.id h = sk.store.id h) ∨
    ∀ h ∈ sk.params, sk'.store.id h = sk.params.eraseDups.idxOf h + 1

namespace Sketch.Confined

variable {ps qs : List Handle} {sk sk' sk'' : Sketch α}

/-- Where no id has changed the change is confined. -/
theorem of_ids (params : sk'.params = sk.params)
    (ids : ∀ h, sk'.store.id h = sk.store.id h) : Confined ps sk sk' :=
  ⟨params, fun h _ _ => ids h, Or.inl fun h _ => ids h⟩

theorem refl (ps : List Handle) (sk : Sketch α) : Confined ps sk sk := of_ids rfl fun _ => rfl

theorem trans (h₁ : Confined ps sk sk') (h₂ : Confined ps sk' sk'') : Confined ps sk sk'' := by
  refine ⟨h₂.params.trans h₁.params, fun h undrawn free => ?_, ?_⟩
  · have undrawn' : h ∉ sk'.params := by rwa [h₁.params]
    exact (h₂.ids h undrawn' free).trans (h₁.ids h undrawn free)
  · have drawn₂ := h₂.drawn
    rw [h₁.params] at drawn₂
    rcases drawn₂ with same | anew
    · rcases h₁.drawn with same' | anew
      · exact Or.inl fun h mem => (same h mem).trans (same' h mem)
      · exact Or.inr fun h mem => (same h mem).trans (anew h mem)
    · exact Or.inr anew

theorem mono (confined : Confined ps sk sk') (sub : ∀ h ∈ ps, h ∈ qs) : Confined qs sk sk' :=
  ⟨confined.params, fun h undrawn free => confined.ids h undrawn fun mem => free (sub h mem),
    confined.drawn⟩

end Sketch.Confined

namespace Space

variable {sp sp' sp'' tp : Space α} {sk sk' sk'' : Sketch α} {h : Handle}

/-- The parameters of all hosted constraints. -/
def hostedParams (sp : Space α) : List Handle := sp.constraints.flatMap (·.params)

/-- The loaded problem has the equations of the hosted constraints, in order, and the space lists every
parameter of theirs under the id that it has. Tags are scratch. -/
structure Matched (sp : Space α) (s : Store α) : Prop where
  equations : ∃ equations, equationsOf sp.constraints = .ok equations ∧
    sp.problem.equations.toList.map (·.untagged) = equations.toList.map (·.untagged)
  listed : ∀ h ∈ Problem.mentioned sp.problem.equations, sp.params.byId? s (s.id h) = some h

/-- The constraints fit, and all of them take part. -/
structure Regular (sp : Space α) : Prop where
  fits : ∀ c ∈ sp.constraints, c.Fits
  unmarked : sp.conflicting = []

omit [Zero α] in
/-- In a regular space all constraints take part. -/
theorem Regular.valid (regular : sp.Regular) : sp.valid = sp.constraints := by
  unfold Space.valid
  rw [regular.unmarked]
  exact List.filter_eq_self.mpr fun c _ => by simp

/-- Solving is not put off, and problem and list are what the hosted constraints make them. The list of
a space that hosts nothing does not matter. -/
structure Settled (sp : Space α) (sk : Sketch α) : Prop where
  idle : sp.inTransaction = false
  equations : ∃ equations, equationsOf sp.constraints = .ok equations ∧
    sp.problem.equations.toList.map (·.untagged) = equations.toList.map (·.untagged)
  list : sp.constraints ≠ [] → sp.params.toList = (sp.met sk).eraseDups
  numbered : sp.constraints ≠ [] → Numbered sp.params sk.store
  needed : ∀ h ∈ sp.problem.params.toList, h ∈ Problem.mentioned sp.problem.equations

/-- A space that hosts nothing and has nothing loaded is settled. -/
theorem Settled.of_empty (idle : sp.inTransaction = false) (none : sp.constraints = [])
    (unloaded : sp.problem.equations.toList = [])
    (needed : ∀ h ∈ sp.problem.params.toList, h ∈ Problem.mentioned sp.problem.equations) :
    Settled sp sk := by
  refine ⟨idle, ⟨IdList.empty, ?_, ?_⟩, fun some => absurd none some,
    fun some => absurd none some, needed⟩
  · rw [none]
    rfl
  · rw [unloaded]
    rfl

namespace Settled

/-- The loaded expressions are what the constraints demand. -/
theorem exprs (settled : Settled sp sk) (fits : ∀ c ∈ sp.constraints, c.Fits) :
    sp.problem.equations.toList.map (·.expr) = sp.constraints.flatMap (·.demands) := by
  obtain ⟨equations, eq, same⟩ := settled.equations
  obtain ⟨equations', eq', _, exprs, _⟩ := equationsOf_ok (α := α) fits
  rw [eq] at eq'
  cases eq'
  rw [EquationList.exprs_of_untagged same, exprs]

/-- A settled space that hosts nothing has nothing loaded. -/
theorem unloaded (settled : Settled sp sk) (none : sp.constraints = []) :
    sp.problem.equations.toList = [] := by
  have exprs := settled.exprs (by rw [none]; exact fun c mem => absurd mem List.not_mem_nil)
  rw [none] at exprs
  exact List.map_eq_nil_iff.mp exprs

/-- **A settled space is matched.** -/
theorem matched (settled : Settled sp sk) (fits : ∀ c ∈ sp.constraints, c.Fits) :
    Matched sp sk.store := by
  refine ⟨settled.equations, fun h mem => ?_⟩
  obtain ⟨c, hc, hh⟩ := mem_mentioned (settled.exprs fits) mem
  have hosts : sp.constraints ≠ [] := List.ne_nil_of_mem hc
  have listed : h ∈ sp.params.toList := by
    rw [settled.list hosts, List.mem_eraseDups]
    exact List.mem_append_right _ (List.mem_flatMap.mpr ⟨c, hc, hh⟩)
  exact ParamList.same?_eq_self (settled.numbered hosts).sorted listed

/-- **Confined work leaves a settled space settled**, if it shares drawn parameters alone with it. -/
theorem keep {ps : List Handle} (settled : Settled tp sk) (confined : sk.Confined ps sk')
    (shared : ∀ h ∈ ps, h ∈ tp.hostedParams → h ∈ sk.params) : Settled tp sk' := by
  have met : tp.met sk' = tp.met sk := by
    unfold met
    rw [confined.params]
  refine ⟨settled.idle, settled.equations, fun hosts => ?_, fun hosts => ?_, settled.needed⟩
  · rw [met]
    exact settled.list hosts
  · have list := settled.list hosts
    refine (settled.numbered hosts).congr fun h mem => ?_
    by_cases drawn : h ∈ sk.params
    · -- numbered anew or not, its id is its place on the sketch
      have before := (settled.numbered hosts).id_eq_idxOf list drawn
      rcases confined.drawn with same | anew
      · exact same h drawn
      · rw [anew h drawn, before]
    · -- a parameter of a constraint alone is not shared, so its id was left as it was
      rw [list, List.mem_eraseDups] at mem
      have hosted : h ∈ tp.hostedParams := (List.mem_append.mp mem).resolve_left drawn
      exact confined.ids h drawn fun both => drawn (shared h both hosted)

/-- Values and scratch do not matter. -/
theorem of_ids (settled : Settled tp sk) (params : sk'.params = sk.params)
    (ids : ∀ h, sk'.store.id h = sk.store.id h) : Settled tp sk' :=
  settled.keep (.of_ids params ids : sk.Confined [] sk') fun _ none =>
    absurd none List.not_mem_nil

end Settled

/-! ## Working on a space -/

/-- What an operation on a space that adds and removes no constraint may do. -/
structure Worked (sp : Space α) (sk : Sketch α) (sp' : Space α) (sk' : Sketch α) : Prop where
  index : sp'.index = sp.index
  constraints : sp'.constraints.Perm sp.constraints
  conflicting : sp'.conflicting = sp.conflicting
  idle : sp.inTransaction = false → sp'.inTransaction = false
  sketch : sk' = { sk with store := sk'.store }
  confined : sk.Confined sp.hostedParams sk'

namespace Worked

omit [Zero α] in
/-- The order of the constraints has no bearing on which parameters they have. -/
theorem mem_hostedParams (same : sp'.constraints.Perm sp.constraints) :
    h ∈ sp'.hostedParams ↔ h ∈ sp.hostedParams := (same.flatMap_right _).mem_iff

theorem refl (sp : Space α) (sk : Sketch α) : Worked sp sk sp sk :=
  ⟨rfl, .refl _, rfl, id, rfl, .refl _ sk⟩

theorem trans (h₁ : Worked sp sk sp' sk') (h₂ : Worked sp' sk' sp'' sk'') :
    Worked sp sk sp'' sk'' := by
  refine ⟨h₂.index.trans h₁.index, h₂.constraints.trans h₁.constraints,
    h₂.conflicting.trans h₁.conflicting, fun idle => h₂.idle (h₁.idle idle), ?_,
    h₁.confined.trans (h₂.confined.mono fun h => (mem_hostedParams h₁.constraints).mp)⟩
  rw [h₂.sketch, h₁.sketch]

end Worked

/-- Building works on the list, the problem and the ids. -/
theorem Built.worked (built : Built sp sk sp' sk') : Worked sp sk sp' sk' := by
  have params : sk'.params = sk.params := by
    rw [built.sketch]
    rfl
  refine ⟨by rw [built.space], by rw [built.constraints], by rw [built.space],
    fun idle => by rw [built.space]; exact idle, built.sketch, params, fun h undrawn free => ?_, Or.inr fun h drawn => ?_⟩
  · refine built.store.id fun mem => ?_
    exact (List.mem_append.mp mem).elim undrawn free
  · exact built.numbered.id_eq_idxOf built.params drawn

/-- A regular space that was built is settled. -/
theorem Built.settled (built : Built sp sk sp' sk') (idle : sp.inTransaction = false)
    (regular : sp.Regular) : Settled sp' sk' := by
  have met : sp'.met sk' = sp.met sk := by
    rw [built.space, built.sketch]
    rfl
  have fits : ∀ c ∈ sp.valid, c.Fits := by
    rw [regular.valid]
    exact regular.fits
  refine ⟨by rw [built.space]; exact idle, ⟨_, ?_, rfl⟩, fun _ => ?_, fun _ => built.numbered,
    fun h => (built.mem_needed fits).mp⟩
  · rw [built.constraints, ← regular.valid]
    exact built.equations
  · rw [met]
    exact built.params

/-- Solving works on the problem and on values. -/
theorem Solved.worked (solved : Solved sp sk sp' sk') : Worked sp sk sp' sk' := by
  refine ⟨by rw [solved.space], by rw [solved.space], by rw [solved.space],
    fun idle => by rw [solved.space]; exact idle, solved.sketch, .of_ids ?_ solved.ids⟩
  rw [solved.sketch]
  rfl

/-- A space that was settled is so after a solve. -/
theorem Solved.settled (solved : Solved sp sk sp' sk') (settled : Settled sp sk) :
    Settled sp' sk' := by
  have constraints : sp'.constraints = sp.constraints := by rw [solved.space]
  have params : sp'.params = sp.params := by rw [solved.space]
  have kept := settled.of_ids (by rw [solved.sketch]; rfl) solved.ids
  have met : sp'.met sk' = sp.met sk' := by
    unfold met
    rw [constraints]
  refine ⟨by rw [solved.space]; exact settled.idle, ?_, fun hosts => ?_, fun hosts => ?_,
    fun h mem => ?_⟩
  · obtain ⟨equations, eq, same⟩ := settled.equations
    exact ⟨equations, by rw [constraints]; exact eq, solved.equations.trans same⟩
  · rw [constraints] at hosts
    rw [params, met]
    exact kept.list hosts
  · rw [constraints] at hosts
    rw [params]
    exact kept.numbered hosts
  · -- a solve changes tags alone, so the same parameters are mentioned
    rw [solved.params] at mem
    obtain ⟨e, he, hh⟩ := List.mem_flatMap.mp (settled.needed h mem)
    obtain ⟨e', he', same⟩ := EquationList.exists_of_untagged solved.equations he
    rw [← Equation.expr_of_untagged same] at hh
    exact List.mem_flatMap.mpr ⟨e', he', hh⟩

end Space

end SketchSolver

import SketchSolver.Proofs.SortedIds
import SketchSolver.Space.Basic

/-!
# The equations that constraints demand

A constraint whose parameters have the right number demands equations (`exists_residuals`),
and mentions in them no parameter but its own (`uses_of_residuals?`). The equations of many
constraints follow each other under the ids 1, 2, …, so none of these is ever taken
(`equationsOf_eq`).

How many equations a constraint demands and what they are is a matter of its kind. What all
kinds have in common is stated for all of them at once, by cases on the kind: with as many
parameters as the kind reads there are residuals, with any other number there are none, and
every parameter that a kind reads occurs in one of them (`Kind.mentions_all_of_residuals?`).
The last fact matters for constraints on parameters that nothing else mentions: a problem lists
what its equations mention, so all parameters of a constraint are listed.

`Constraint.Fits` is what creating a constraint guarantees (`create_ok`), and it is kept since
nobody changes the parameters of a constraint. So in all later modules a constraint that fits
is one that has equations, and `demands` is the list of their expressions without the option
that stands for a misfit.

`EquationList.ofExprs` writes down the list that loading arrives at: the expressions in order,
with their positions as ids. That adding one expression after the other gives this list is an
induction in which the largest id is the length (`addExpr_ofExprs`).
-/

namespace SketchSolver

variable {α : Type}

/-- All parameters of an expression are among some handles. -/
def Expr.Uses (hs : List Handle) (e : Expr α) : Prop := ∀ p ∈ e.params, p ∈ hs

namespace Expr

variable {hs : List Handle} {a b : Expr α}

@[simp] theorem uses_param {p : Handle} : (param p : Expr α).Uses hs ↔ p ∈ hs := by
  unfold Uses params
  simp

@[simp] theorem uses_unary {op : UnaryOp} : (unary op a).Uses hs ↔ a.Uses hs := Iff.rfl

@[simp] theorem uses_binary {op : BinaryOp} :
    (binary op a b).Uses hs ↔ a.Uses hs ∧ b.Uses hs := by
  show (∀ p ∈ a.params ++ b.params, p ∈ hs) ↔ _
  simp only [List.mem_append, or_imp, forall_and]
  rfl

end Expr

/-- **A constraint demands nothing of parameters that are not its own.** -/
theorem Kind.uses_of_residuals? {kind : Kind} {params : List Handle} {es : List (Expr α)}
    (h : kind.residuals? params = some es) : ∀ e ∈ es, e.Uses params := by
  unfold residuals? at h
  split at h <;> cases h
  all_goals
    simp [equal, acrossAxis, oppositeSides, Point.distance, Point.lineDistance, Point.difference,
      Point.position, ExprVector.ofParams, ExprVector.minus, ExprVector.cross, ExprVector.dot,
      ExprVector.magnitude, Expr.plus, Expr.minus, Expr.times, Expr.div, Expr.square, Expr.sqrt]

/-- **A constraint demands something of a parameter at all.** -/
theorem Kind.mentions_of_residuals? {kind : Kind} {params : List Handle} {es : List (Expr α)}
    (h : kind.residuals? params = some es) : ∃ e ∈ es, e.params ≠ [] := by
  unfold residuals? at h
  split at h <;> cases h
  all_goals
    refine ⟨_, List.mem_cons_self, ?_⟩
    simp [equal, acrossAxis, Point.distance, Point.lineDistance, Point.difference,
      Point.position, ExprVector.ofParams, ExprVector.minus, ExprVector.cross, ExprVector.dot,
      ExprVector.magnitude, Expr.plus, Expr.minus, Expr.times, Expr.div, Expr.square, Expr.sqrt,
      Expr.params]

/-- **What is demanded mentions all parameters**, unless it is that two of them are equal. -/
theorem Kind.mentions_all_of_residuals? {kind : Kind} {params : List Handle} {es : List (Expr α)}
    (h : kind.residuals? params = some es) :
    ∀ e ∈ es, e.paramDifference? = none → ∀ p ∈ params, p ∈ e.params := by
  unfold residuals? at h
  split at h <;> cases h
  all_goals
    simp [equal, acrossAxis, oppositeSides, Point.distance, Point.lineDistance, Point.difference,
      Point.position, ExprVector.ofParams, ExprVector.minus, ExprVector.cross, ExprVector.dot,
      ExprVector.magnitude, Expr.plus, Expr.minus, Expr.times, Expr.div, Expr.square, Expr.sqrt,
      Expr.params, Expr.paramDifference?]

/-- A constraint whose parameters have the right number demands equations. -/
theorem Kind.exists_residuals {kind : Kind} {params : List Handle}
    (h : params.length = kind.paramCount) :
    ∃ es : List (Expr α), kind.residuals? params = some es := by
  rcases params with _ | ⟨a, _ | ⟨b, _ | ⟨c, _ | ⟨d, _ | ⟨e, _ | ⟨f, _ | ⟨g, _ | ⟨i, _ | _⟩⟩⟩⟩⟩⟩⟩⟩
  all_goals
    cases kind <;> first | exact ⟨_, rfl⟩ | simp [paramCount] at h

namespace Constraint

variable {c : Constraint}

/-- The constraint has as many parameters as its kind reads. -/
def Fits (c : Constraint) : Prop := c.params.length = c.kind.paramCount

/-- The constraint reads two different parameters. -/
def Varied (c : Constraint) : Prop := ∃ a ∈ c.params, ∃ b ∈ c.params, a ≠ b

/-- The expressions that a constraint drives to zero. -/
def demands (c : Constraint) : List (Expr α) := (c.kind.residuals? c.params).getD []

/-- The residuals of a constraint that fits are what it demands. -/
theorem residuals_ok (fits : c.Fits) :
    (c.residuals : Except (Failure α) _) = .ok c.demands := by
  obtain ⟨es, eq⟩ := Kind.exists_residuals (α := α) fits
  unfold residuals demands
  rw [eq]
  rfl

/-- Constraints that fit demand their equations one after the other. -/
theorem mapM_residuals : ∀ {cs : List Constraint}, (∀ c ∈ cs, c.Fits) →
    (cs.mapM residuals : Except (Failure α) _) = .ok (cs.map (·.demands))
  | [], _ => rfl
  | c :: cs, fits => by
    rw [List.mapM_cons, residuals_ok (fits c List.mem_cons_self),
      mapM_residuals fun d mem => fits d (List.mem_cons_of_mem c mem)]
    rfl

theorem exists_mentioning (fits : c.Fits) : ∃ e ∈ (c.demands : List (Expr α)), e.params ≠ [] := by
  obtain ⟨es, eq⟩ := Kind.exists_residuals (α := α) fits
  unfold demands
  rw [eq]
  exact Kind.mentions_of_residuals? eq

/-- What is demanded is a residual. -/
theorem exists_residuals_of_mem_demands {e : Expr α} (mem : e ∈ c.demands) :
    ∃ es, (c.kind.residuals? c.params : Option (List (Expr α))) = some es ∧ e ∈ es := by
  unfold demands at mem
  cases eq : (c.kind.residuals? c.params : Option (List (Expr α))) with
  | none =>
    rw [eq] at mem
    simp at mem
  | some es =>
    rw [eq] at mem
    exact ⟨es, rfl, mem⟩

/-- The equations of a constraint mention its own parameters only. -/
theorem uses_of_mem_demands {e : Expr α} (mem : e ∈ c.demands) :
    e.Uses c.params := by
  obtain ⟨es, eq, mem⟩ := exists_residuals_of_mem_demands mem
  exact Kind.uses_of_residuals? eq e mem

/-- What is created has the parameters of its entities, as many as it reads, and a new id. -/
theorem create_ok {sk sk' : Sketch α} {kind : Kind} {ids : List EntityId} {c : Constraint}
    (created : create sk kind ids = .ok (c, sk')) :
    ∃ es, ids.mapM sk.entity = .ok es ∧ c.Fits ∧
      c = { id := ⟨sk.constraintCount + 1⟩, kind, entities := ids,
            params := es.flatMap (·.shape.params) } ∧
      sk' = { sk with constraintCount := sk.constraintCount + 1 } := by
  unfold create at created
  by_cases few : ids.length ≠ kind.entityCount
  · rw [if_pos few] at created
    simp [throw, throwThe, MonadExceptOf.throw, bind, Except.bind] at created
  rw [if_neg few] at created
  cases found : ids.mapM sk.entity with
  | error e =>
    rw [found] at created
    simp [bind, Except.bind] at created
  | ok es =>
    rw [found] at created
    simp only [bind, Except.bind] at created
    by_cases wrong : (es.flatMap (·.shape.params)).length ≠ kind.paramCount
    · rw [if_pos wrong] at created
      simp [throw, throwThe, MonadExceptOf.throw] at created
    · rw [if_neg wrong] at created
      have fits : (es.flatMap (·.shape.params)).length = kind.paramCount :=
        Decidable.not_not.mp wrong
      simp only [pure, Except.pure, Except.ok.injEq, Prod.mk.injEq] at created
      obtain ⟨rfl, rfl⟩ := created
      exact ⟨es, rfl, fits, rfl, rfl⟩

end Constraint

namespace EquationList

variable {c : Constraint} {cs : List Constraint}

/-- The equations for some expressions, under the ids 1, 2, … -/
def ofExprs (es : List (Expr α)) : EquationList α :=
  ⟨(es.mapIdx fun i e => { id := i + 1, expr := e }).toArray⟩

variable {es fs : List (Expr α)}

/-- The ids are positions, counted from one. -/
theorem toList_ofExprs (es : List (Expr α)) :
    (ofExprs es).toList = es.mapIdx fun i e => { id := i + 1, expr := e } := List.toList_toArray

theorem sorted_ofExprs (es : List (Expr α)) : IdList.Sorted Equation.id (ofExprs es) := by
  unfold IdList.Sorted
  rw [toList_ofExprs]
  refine List.pairwise_iff_getElem.mpr fun i j hi hj lt => ?_
  simp only [List.getElem_mapIdx]
  omega

/-- The expressions are those given, in order. -/
theorem exprs_ofExprs (es : List (Expr α)) : (ofExprs es).toList.map (·.expr) = es := by
  rw [toList_ofExprs]
  refine List.ext_getElem (by simp) fun i hi hj => ?_
  simp only [List.getElem_map, List.getElem_mapIdx]

theorem free_ofExprs (es : List (Expr α)) : ∀ e ∈ (ofExprs es).toList, e.tag = 0 := by
  intro e mem
  rw [toList_ofExprs, List.mem_mapIdx] at mem
  obtain ⟨i, bound, rfl⟩ := mem
  rfl

/-- The largest id is the number of equations. -/
theorem maxId_ofExprs (es : List (Expr α)) : (ofExprs es).maxId Equation.id = es.length := by
  unfold IdList.maxId
  cases last : (ofExprs es).items.back? with
  | none =>
    rw [Array.back?_eq_none_iff] at last
    have size := congrArg Array.size last
    simp only [ofExprs, List.size_toArray, List.length_mapIdx] at size
    simp only [size]
    rfl
  | some e =>
    rw [Array.back?_eq_getElem?] at last
    obtain ⟨bound, rfl⟩ := Array.getElem?_eq_some_iff.mp last
    simp only [ofExprs, List.getElem_toArray, List.getElem_mapIdx, List.size_toArray,
      List.length_mapIdx] at bound ⊢
    omega

/-- One more expression gets the next id, which is never taken. -/
theorem addExpr_ofExprs (es : List (Expr α)) (e : Expr α) :
    (ofExprs es).addExpr e = .ok (ofExprs (es ++ [e])) := by
  have added : (ofExprs es).addFresh? { expr := e } =
      some ⟨(ofExprs es).items.push ((ofExprs es).numbered { expr := e })⟩ := by
    refine IdList.insert?_last (sorted_ofExprs es) fun y mem => ?_
    have := IdList.le_maxId (sorted_ofExprs es) mem
    show y.id < (ofExprs es).maxId Equation.id + 1
    omega
  have list : (⟨(ofExprs es).items.push ((ofExprs es).numbered { expr := e })⟩ :
      EquationList α) = ofExprs (es ++ [e]) := by
    unfold numbered
    rw [maxId_ofExprs]
    simp [ofExprs, List.mapIdx_append]
  unfold addExpr
  rw [added, list]

/-- Adding expressions one after the other appends them. -/
theorem foldlM_addExpr_ofExprs : ∀ (fs es : List (Expr α)),
    fs.foldlM addExpr (ofExprs es) = .ok (ofExprs (es ++ fs))
  | [], es => by
    rw [List.append_nil]
    rfl
  | f :: fs, es => by
    rw [List.foldlM_cons, addExpr_ofExprs, List.append_cons es f fs]
    exact foldlM_addExpr_ofExprs fs (es ++ [f])

/-- Adding a constraint appends what it demands. -/
theorem addConstraint_ofExprs (es : List (Expr α)) (fits : c.Fits) :
    (ofExprs es).addConstraint c = .ok (ofExprs (es ++ c.demands)) := by
  unfold addConstraint
  rw [Constraint.residuals_ok fits]
  exact foldlM_addExpr_ofExprs c.demands es

/-- Adding constraints one after the other appends what they demand. -/
theorem foldlM_addConstraint_ofExprs : ∀ {cs : List Constraint} (es : List (Expr α)),
    (∀ c ∈ cs, c.Fits) →
    cs.foldlM addConstraint (ofExprs es) = .ok (ofExprs (es ++ cs.flatMap (·.demands)))
  | [], es, _ => by
    rw [List.flatMap_nil, List.append_nil]
    rfl
  | c :: cs, es, fits => by
    rw [List.foldlM_cons, addConstraint_ofExprs es (fits c List.mem_cons_self), List.flatMap_cons,
      ← List.append_assoc]
    exact foldlM_addConstraint_ofExprs (es ++ c.demands)
      fun d mem => fits d (List.mem_cons_of_mem c mem)

end EquationList

namespace Space

variable {cs : List Constraint}

/-- **Constraints that fit always have equations**: what they demand, in order, under the ids 1, 2, … -/
theorem equationsOf_eq (fits : ∀ c ∈ cs, c.Fits) :
    (equationsOf cs : Except (Failure α) _) = .ok (.ofExprs (cs.flatMap (·.demands))) :=
  EquationList.foldlM_addConstraint_ofExprs [] fits

/-- Constraints that fit have equations, in the order of their ids and without tags. -/
theorem equationsOf_ok (fits : ∀ c ∈ cs, c.Fits) :
    ∃ l : EquationList α, equationsOf cs = .ok l ∧ IdList.Sorted Equation.id l ∧
      l.toList.map (·.expr) = cs.flatMap (·.demands) ∧ ∀ e ∈ l.toList, e.tag = 0 :=
  ⟨_, equationsOf_eq fits, EquationList.sorted_ofExprs _, EquationList.exprs_ofExprs _,
    EquationList.free_ofExprs _⟩

end Space

end SketchSolver

import SketchSolver.Expr.Freeze
import SketchSolver.Proofs.ListedParams

/-!
# What the frozen copy of an expression means

A frozen copy has the shape of the expression: only its leaves differ. So its value is that of
the expression when each parameter is read as its frozen leaf (`eval_frozen`), and a copy of
leaves that are neither settled nor eliminated is the expression itself.

A leaf is frozen in two steps. First the parameter that is read in its place is found, which is
its representative if it was eliminated (`standIn`). Then that parameter becomes a constant if
it is settled (`frozenLeaf_known`), or stays a parameter (`frozenLeaf_free`). The first step
depends on ids, tags and representatives, the second on what is settled and on values.

Evaluating the copy therefore gives the value of the expression at the values of the stand-ins,
provided that settled ones have kept the value that was frozen (`eval_frozen_standIn`). This
is how residuals of frozen rows, which Newton's method drives to zero, are turned into
residuals of equations.

Since a copy depends on nothing but the listed parameters, two stores that agree on these have
equal copies of an expression whose parameters are listed (`frozen_congr`).
-/

namespace SketchSolver

variable {α : Type}

/-- A parameter is eliminated if it has the tag for that. -/
theorem Param.isSubstituted_iff {p : Param α} : p.isSubstituted = true ↔ p.tag = substitutedTag :=
  beq_iff_eq

/-- A parameter is not eliminated if it has another tag. -/
theorem Param.not_isSubstituted_iff {p : Param α} :
    p.isSubstituted = false ↔ p.tag ≠ substitutedTag := by
  unfold isSubstituted
  rw [beq_eq_false_iff_ne]

/-- What no phase has marked is not eliminated. -/
theorem Store.kept_of_unmarked [Zero α] {s : Store α} {h : Handle} (unmarked : s.tag h = 0) :
    (s.get h).isSubstituted = false := by
  refine Param.not_isSubstituted_iff.mpr (show s.tag h ≠ substitutedTag from ?_)
  rw [unmarked]
  decide

namespace Expr

/-- The value depends on the parameters that occur. -/
theorem eval_congr [Add α] [Sub α] [Mul α] [Div α] [Neg α] [Elementary α] {env env' : Handle → α}
    (e : Expr α) (agree : ∀ p ∈ e.params, env p = env' p) : e.eval env = e.eval env' := by
  induction e with
  | param p => exact agree p List.mem_cons_self
  | const v => rfl
  | unary op a ih =>
    unfold eval
    rw [ih agree]
  | binary op a b iha ihb =>
    unfold eval
    rw [iha fun p hp => agree p (List.mem_append_left _ hp),
      ihb fun p hp => agree p (List.mem_append_right _ hp)]

/-- The two parameters of a difference occur in it. -/
theorem mem_params_of_difference {e : Expr α} {a b : Handle}
    (difference : e.paramDifference? = some (a, b)) : a ∈ e.params ∧ b ∈ e.params := by
  unfold paramDifference? at difference
  split at difference
  next =>
    cases difference
    exact ⟨List.mem_cons_self, List.mem_cons_of_mem _ List.mem_cons_self⟩
  next => simp at difference

section Frozen

variable [Zero α] {s t : Store α} {l : ParamList} {p r : Handle}

/-- The value of the frozen copy is that of the expression at the frozen leaves. -/
theorem eval_frozen [Add α] [Sub α] [Mul α] [Div α] [Neg α] [Elementary α] (s : Store α)
    (l : ParamList) (env : Handle → α) (e : Expr α) :
    (e.frozen s l).eval env = e.eval fun p => (frozenLeaf s l p).eval env := by
  induction e with
  | param p => rfl
  | const v => rfl
  | unary op a ih =>
    unfold frozen eval
    rw [ih]
  | binary op a b iha ihb =>
    unfold frozen eval
    rw [iha, ihb]

/-- The parameters of the frozen copy are those of the frozen leaves. -/
theorem mem_params_frozen {e : Expr α} {r : Handle} :
    r ∈ (e.frozen s l).params ↔ ∃ p ∈ e.params, r ∈ (frozenLeaf s l p).params := by
  induction e with
  | param p => simp [frozen, params]
  | const v => simp [frozen, params]
  | unary op a ih => exact ih
  | binary op a b iha ihb =>
    show r ∈ (a.frozen s l).params ++ (b.frozen s l).params ↔ ∃ p ∈ a.params ++ b.params, _
    rw [List.mem_append, iha, ihb]
    simp only [List.mem_append, or_and_right, exists_or]

/-- What is read in place of a parameter is listed. -/
theorem stand?_mem (found : stand? s l p = some r) : r ∈ l.toList := by
  unfold stand? at found
  obtain ⟨k, same, eq⟩ := Option.map_eq_some_iff.mp found
  simp only at eq
  split at eq
  next =>
    cases byId : l.byId? s (s.get k).representative with
    | none =>
      rw [byId] at eq
      exact eq ▸ ParamList.same?_mem same
    | some q =>
      rw [byId] at eq
      exact eq ▸ ParamList.byId?_mem byId
  next => exact eq ▸ ParamList.same?_mem same

/-- A listed parameter that was not eliminated is read itself. -/
theorem stand?_eq_self (sorted : IdList.Sorted s.id l) (mem : p ∈ l.toList)
    (kept : (s.get p).isSubstituted = false) : stand? s l p = some p := by
  unfold stand?
  rw [ParamList.same?_eq_self sorted mem]
  simp [kept]

/-- An eliminated parameter is read through its representative. -/
theorem stand?_eq_representative (sorted : IdList.Sorted s.id l) (mem : p ∈ l.toList)
    (gone : (s.get p).isSubstituted = true)
    (found : l.byId? s (s.get p).representative = some r) : stand? s l p = some r := by
  unfold stand?
  rw [ParamList.same?_eq_self sorted mem]
  simp [gone, found]

theorem frozenLeaf_known (stand : stand? s l p = some r) (known : (s.get r).known = true) :
    frozenLeaf s l p = .const (s.value r) := by
  unfold frozenLeaf
  rw [stand]
  simp only [known, if_true]
  rfl

/-- What is not settled stays a parameter, that of the stand-in. -/
theorem frozenLeaf_free (stand : stand? s l p = some r) (free : (s.get r).known = false) :
    frozenLeaf s l p = .param r := by
  unfold frozenLeaf
  rw [stand]
  simp [free]

/-- The parameters of a frozen leaf are listed when the leaf was. -/
theorem mem_of_mem_frozenLeaf (stand : stand? s l p = some r) {q : Handle}
    (mem : q ∈ (frozenLeaf s l p).params) : q = r ∧ (s.get r).known = false := by
  cases known : (s.get r).known with
  | true =>
    rw [frozenLeaf_known stand known] at mem
    simp [params] at mem
  | false =>
    rw [frozenLeaf_free stand known] at mem
    exact ⟨List.mem_singleton.mp mem, rfl⟩

/-! ## Stand-ins -/

/-- The parameter that is read in place of another one, which is itself when the list has none. -/
def standIn (s : Store α) (l : ParamList) (p : Handle) : Handle := (stand? s l p).getD p

theorem stand?_of_mem (sorted : IdList.Sorted s.id l) (mem : p ∈ l.toList) :
    stand? s l p = some (standIn s l p) := by
  unfold standIn stand?
  rw [ParamList.same?_eq_self sorted mem]
  rfl

theorem standIn_mem (sorted : IdList.Sorted s.id l) (mem : p ∈ l.toList) :
    standIn s l p ∈ l.toList := stand?_mem (stand?_of_mem sorted mem)

theorem standIn_kept (sorted : IdList.Sorted s.id l) (mem : p ∈ l.toList)
    (kept : (s.get p).isSubstituted = false) : standIn s l p = p := by
  unfold standIn
  rw [stand?_eq_self sorted mem kept]
  rfl

theorem standIn_gone (sorted : IdList.Sorted s.id l) (mem : p ∈ l.toList)
    (gone : (s.get p).isSubstituted = true) (memr : r ∈ l.toList)
    (idr : s.id r = (s.get p).representative) : standIn s l p = r := by
  unfold standIn
  rw [stand?_eq_representative sorted mem gone
    ((ParamList.byId?_eq_some_iff sorted).mpr ⟨memr, idr⟩)]
  rfl

/-- Stand-ins depend on the ids, and on what was eliminated in favour of what. -/
theorem standIn_of_marks (ids : ∀ h, t.id h = s.id h)
    (marks : ∀ h ∈ l.toList, (t.get h).isSubstituted = (s.get h).isSubstituted ∧
      (t.get h).representative = (s.get h).representative) (p : Handle) :
    standIn t l p = standIn s l p := by
  have id : t.id = s.id := funext ids
  have byId : ∀ i, l.byId? t i = l.byId? s i := fun i => by
    unfold ParamList.byId?
    rw [id]
  unfold standIn stand? ParamList.same?
  rw [id, byId]
  cases found : l.byId? s (s.id p) with
  | none => rfl
  | some k =>
    obtain ⟨gone, rep⟩ := marks k (ParamList.byId?_mem found)
    simp only [Option.map_some]
    rw [gone, rep, byId]

/-- Where the settled stand-ins keep their values, a frozen copy has the value of the expression at
the values of the stand-ins. -/
theorem eval_frozen_standIn [Add α] [Sub α] [Mul α] [Div α] [Neg α] [Elementary α] {e : Expr α}
    {env : Handle → α} (sorted : IdList.Sorted s.id l) (listed : ∀ p ∈ e.params, p ∈ l.toList)
    (settled : ∀ r ∈ l.toList, (s.get r).known = true → env r = s.value r) :
    (e.frozen s l).eval env = e.eval fun p => env (standIn s l p) := by
  rw [eval_frozen]
  refine eval_congr e fun p hp => ?_
  have stand := stand?_of_mem sorted (listed p hp)
  cases known : (s.get (standIn s l p)).known with
  | true =>
    rw [frozenLeaf_known stand known, settled _ (standIn_mem sorted (listed p hp)) known]
    rfl
  | false =>
    rw [frozenLeaf_free stand known]
    rfl

/-! ## Two stores -/

theorem stand?_congr (agree : Store.Agree l.toList s t) (mem : p ∈ l.toList) :
    stand? t l p = stand? s l p := by
  unfold stand?
  rw [ParamList.same?_congr agree mem]
  cases same : l.same? s p with
  | none => rfl
  | some k =>
    simp only [Option.map_some]
    rw [agree k (ParamList.same?_mem same), ParamList.byId?_congr agree]

theorem frozenLeaf_congr (agree : Store.Agree l.toList s t) (mem : p ∈ l.toList) :
    frozenLeaf t l p = frozenLeaf s l p := by
  unfold frozenLeaf
  rw [stand?_congr agree mem]
  cases stand : stand? s l p with
  | none => rfl
  | some r =>
    simp only
    rw [agree r (stand?_mem stand)]

theorem frozen_congr (agree : Store.Agree l.toList s t) {e : Expr α}
    (listed : ∀ p ∈ e.params, p ∈ l.toList) : e.frozen t l = e.frozen s l := by
  induction e with
  | param p => exact frozenLeaf_congr agree (listed p List.mem_cons_self)
  | const v => rfl
  | unary op a ih =>
    unfold frozen
    rw [ih listed]
  | binary op a b iha ihb =>
    unfold frozen
    rw [iha fun p hp => listed p (List.mem_append_left _ hp),
      ihb fun p hp => listed p (List.mem_append_right _ hp)]

/-- What an expression refers to depends on which of its parameters are listed, and on their ids. -/
theorem referenced_congr {e : Expr α}
    (same : ∀ p ∈ e.params, l.has t p = l.has s p ∧ t.id p = s.id p) :
    e.referenced t l = e.referenced s l := by
  induction e with
  | param p =>
    obtain ⟨has, id⟩ := same p List.mem_cons_self
    unfold referenced
    rw [has, id]
  | const v => rfl
  | unary op a ih =>
    unfold referenced
    rw [ih same]
  | binary op a b iha ihb =>
    unfold referenced
    rw [iha fun p hp => same p (List.mem_append_left _ hp),
      ihb fun p hp => same p (List.mem_append_right _ hp)]

end Frozen

end Expr

end SketchSolver

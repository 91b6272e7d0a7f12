import SketchSolver.Proofs.Expr.FrozenValue

/-!
# Frozen copies against any list

`ReadsFor s l p r` says in terms of ids and marks that `r` is read in place of `p`. It takes
one step: from the listed parameter with the id of `p` to the representative of that one, and
no further. Where every listed parameter is found under its own id (`ParamList.Findable`), be
the list in order or not, it is `standIn` that is read (`readsFor_iff`), and so a leaf of the
copy is a constant or a stand-in (`frozenLeaf_eq`).

The main statement is `frozen_stands_in`: what the copy of an expression is worth now and
later, and which parameters it still mentions.

During a solve much more is known. The list is in order, all that an equation mentions is in
it, and no representative is eliminated itself. None of this is assumed here, because a copy
can be made of any expression against any list, so the cases are the four of `ReadsFor`: a
parameter that is not listed stays; one that is listed and not eliminated is read itself, or
rather the listed one with its id is; an eliminated one is read through its representative if
that is listed; and if not, it stays as well.

That one step is taken and not more has a consequence. A chain of representatives is followed
to its second member only, and what is read there may be eliminated in turn. Where no
representative is eliminated (`DirectlyRepresented`), a copy mentions free parameters alone
(`free_of_mem_params_frozen`).

The copy has the shape of the expression, with the same operators in the same places
(`SameShape`), so what can be said about its value is said leaf by leaf.
-/

namespace SketchSolver

variable {α : Type} [Zero α] {s : Store α} {l : ParamList} {p q r k : Handle} {id : Int}

namespace ParamList

/-- Every listed parameter is found under its own id. -/
def Findable (l : ParamList) (s : Store α) : Prop := ∀ k ∈ l.toList, l.same? s k = some k

/-- The id of a parameter is in the list, though perhaps as that of another parameter. -/
def Lists (l : ParamList) (s : Store α) (p : Handle) : Prop := ∃ k ∈ l.toList, s.id k = s.id p

instance (l : ParamList) (s : Store α) (p : Handle) : Decidable (l.Lists s p) :=
  inferInstanceAs (Decidable (∃ k ∈ l.toList, s.id k = s.id p))

namespace Findable

/-- A look-up finds the listed parameter with an id, and only that. -/
theorem byId?_eq_some_iff (found : l.Findable s) :
    l.byId? s id = some k ↔ k ∈ l.toList ∧ s.id k = id := by
  constructor
  · intro h
    exact ⟨byId?_mem h, byId?_id h⟩
  · intro h
    obtain ⟨mem, rfl⟩ := h
    exact found k mem

theorem byId?_eq_none_iff (found : l.Findable s) :
    l.byId? s id = none ↔ ∀ k ∈ l.toList, s.id k ≠ id := by
  rw [Option.eq_none_iff_forall_ne_some]
  simp only [ne_eq, found.byId?_eq_some_iff, not_and]

end Findable

end ParamList

namespace Expr

open ParamList (Findable)

/-! ## What is read in place of a parameter -/

/-- `r` is read in place of `p`. -/
inductive ReadsFor (s : Store α) (l : ParamList) (p : Handle) : Handle → Prop where
  /-- A parameter whose id is not listed is read itself. -/
  | outside (absent : ¬l.Lists s p) : ReadsFor s l p p
  /-- Else the listed parameter with its id is. -/
  | kept {k : Handle} (mem : k ∈ l.toList) (same : s.id k = s.id p)
      (kept : (s.get k).isSubstituted = false) : ReadsFor s l p k
  /-- In place of an eliminated one its listed representative is. -/
  | represented {k r : Handle} (mem : k ∈ l.toList) (same : s.id k = s.id p)
      (gone : (s.get k).isSubstituted = true) (listed : r ∈ l.toList)
      (representative : s.id r = (s.get k).representative) : ReadsFor s l p r
  /-- An eliminated one without a listed representative is read itself. -/
  | orphaned {k : Handle} (mem : k ∈ l.toList) (same : s.id k = s.id p)
      (gone : (s.get k).isSubstituted = true)
      (missing : ∀ r ∈ l.toList, s.id r ≠ (s.get k).representative) : ReadsFor s l p k

/-- A parameter whose id is not listed has no counterpart in the list. -/
theorem same?_of_absent (found : l.Findable s) (absent : ¬l.Lists s p) : l.same? s p = none := by
  apply found.byId?_eq_none_iff.mpr
  intro k mem same
  exact absent ⟨k, mem, same⟩

theorem standIn_of_absent (found : l.Findable s) (absent : ¬l.Lists s p) : standIn s l p = p := by
  unfold standIn stand?
  rw [same?_of_absent found absent]
  rfl

/-- A parameter whose id is listed has a stand-in. -/
theorem stand?_of_lists (found : l.Findable s) (lists : l.Lists s p) :
    stand? s l p = some (standIn s l p) := by
  obtain ⟨k, mem, same⟩ := lists
  have listed : l.same? s p = some k := found.byId?_eq_some_iff.mpr ⟨mem, same⟩
  unfold standIn stand?
  rw [listed]
  rfl

/-- In place of a parameter whose id is listed, the listed one with this id is read, or its
representative. -/
theorem standIn_of_same (found : l.Findable s) (mem : k ∈ l.toList) (same : s.id k = s.id p) :
    standIn s l p =
      if (s.get k).isSubstituted then (l.byId? s (s.get k).representative).getD k else k := by
  have listed : l.same? s p = some k := found.byId?_eq_some_iff.mpr ⟨mem, same⟩
  unfold standIn stand?
  rw [listed]
  rfl

/-- The stand-in is read in place of a parameter. -/
theorem readsFor_standIn (found : l.Findable s) (p : Handle) : ReadsFor s l p (standIn s l p) := by
  by_cases lists : l.Lists s p
  · obtain ⟨k, mem, same⟩ := lists
    rw [standIn_of_same found mem same]
    by_cases gone : (s.get k).isSubstituted = true
    · rw [if_pos gone]
      cases byId : l.byId? s (s.get k).representative with
      | none => exact .orphaned mem same gone (found.byId?_eq_none_iff.mp byId)
      | some r =>
        obtain ⟨listed, id⟩ := found.byId?_eq_some_iff.mp byId
        exact .represented mem same gone listed id
    · rw [if_neg gone]
      exact .kept mem same ((Bool.not_eq_true _).mp gone)
  · rw [standIn_of_absent found lists]
    exact .outside lists

/-- **The stand-in is what is read**, and nothing else is. -/
theorem readsFor_iff (found : l.Findable s) : ReadsFor s l p r ↔ r = standIn s l p := by
  constructor
  · intro reads
    cases reads with
    | outside absent => exact (standIn_of_absent found absent).symm
    | kept mem same kept =>
      rw [standIn_of_same found mem same, kept]
      rfl
    | represented mem same gone listed id =>
      have byId := found.byId?_eq_some_iff.mpr ⟨listed, id⟩
      rw [standIn_of_same found mem same, if_pos gone, byId]
      rfl
    | orphaned mem same gone missing =>
      have byId := found.byId?_eq_none_iff.mpr missing
      rw [standIn_of_same found mem same, if_pos gone, byId]
      rfl
  · intro eq
    rw [eq]
    exact readsFor_standIn found p

/-! ## The leaves of the copy -/

/-- A leaf is settled: its id is listed, and what is read in its place is known. -/
def Settled (s : Store α) (l : ParamList) (p : Handle) : Prop :=
  l.Lists s p ∧ (s.get (standIn s l p)).known = true

instance (s : Store α) (l : ParamList) (p : Handle) : Decidable (Settled s l p) :=
  inferInstanceAs (Decidable (_ ∧ _))

/-- The copy of a leaf is a constant if it is settled, and else its stand-in. -/
theorem frozenLeaf_eq (found : l.Findable s) (p : Handle) :
    frozenLeaf s l p =
      if Settled s l p then .const (s.value (standIn s l p)) else .param (standIn s l p) := by
  by_cases lists : l.Lists s p
  · have stand := stand?_of_lists found lists
    by_cases known : (s.get (standIn s l p)).known = true
    · rw [if_pos ⟨lists, known⟩, frozenLeaf_known stand known]
    · have free : ¬Settled s l p := by
        intro settled
        exact known settled.2
      rw [if_neg free, frozenLeaf_free stand ((Bool.not_eq_true _).mp known)]
  · have free : ¬Settled s l p := by
      intro settled
      exact lists settled.1
    rw [if_neg free, standIn_of_absent found lists]
    unfold frozenLeaf stand?
    rw [same?_of_absent found lists]
    rfl

/-- What the copy still mentions are the stand-ins of leaves that are not settled. -/
theorem mem_params_frozen_iff (found : l.Findable s) {e : Expr α} :
    q ∈ (e.frozen s l).params ↔ ∃ p ∈ e.params, ¬Settled s l p ∧ q = standIn s l p := by
  rw [mem_params_frozen]
  refine exists_congr fun p => and_congr_right fun _ => ?_
  rw [frozenLeaf_eq found]
  split
  next settled => simp [params, settled]
  next free => simp [params, free]

/-! ## The copy -/

/-- The second expression is the first with other leaves in place of parameters: constants are the
same, and so are the operators at every node. -/
inductive SameShape : Expr α → Expr α → Prop where
  | param (p q : Handle) : SameShape (.param p) (.param q)
  | settled (p : Handle) (v : α) : SameShape (.param p) (.const v)
  | const (v : α) : SameShape (.const v) (.const v)
  | unary (op : UnaryOp) {a a' : Expr α} (operand : SameShape a a') :
      SameShape (.unary op a) (.unary op a')
  | binary (op : BinaryOp) {a a' b b' : Expr α} (left : SameShape a a') (right : SameShape b b') :
      SameShape (.binary op a b) (.binary op a' b')

/-- A copy differs from the expression at leaves only. -/
theorem sameShape_frozen (found : l.Findable s) (e : Expr α) : e.SameShape (e.frozen s l) := by
  induction e with
  | param p =>
    unfold frozen
    rw [frozenLeaf_eq found]
    split
    next => exact .settled p _
    next => exact .param p _
  | const v => exact .const v
  | unary op a ih => exact .unary op ih
  | binary op a b iha ihb => exact .binary op iha ihb

/-- No representative is eliminated itself. -/
def DirectlyRepresented (s : Store α) (l : ParamList) : Prop :=
  ∀ k ∈ l.toList, (s.get k).isSubstituted = true →
    ∀ r ∈ l.toList, s.id r = (s.get k).representative → (s.get r).isSubstituted = false

/-- A listed leaf of the copy is not known, and is eliminated only if its representative is
missing. -/
theorem free_of_mem_params_frozen (found : l.Findable s) (direct : DirectlyRepresented s l)
    {e : Expr α} (mem : q ∈ (e.frozen s l).params) (lists : l.Lists s q) :
    (s.get q).known = false ∧ ((s.get q).isSubstituted = true →
      ∀ r ∈ l.toList, s.id r ≠ (s.get q).representative) := by
  obtain ⟨p, _, free, eq⟩ := (mem_params_frozen_iff found).mp mem
  have reads : ReadsFor s l p q := (readsFor_iff found).mpr eq
  have known : l.Lists s p → (s.get q).known = false := by
    intro listed
    rw [eq]
    exact Bool.eq_false_iff.mpr fun known => free ⟨listed, known⟩
  cases reads with
  | outside absent => exact absurd lists absent
  | kept memk same kept =>
    refine ⟨known ⟨_, memk, same⟩, ?_⟩
    intro gone
    rw [kept] at gone
    simp at gone
  | represented memk same gone listed id =>
    refine ⟨known ⟨_, memk, same⟩, ?_⟩
    intro gone'
    rw [direct _ memk gone q listed id] at gone'
    simp at gone'
  | orphaned memk same gone missing => exact ⟨known ⟨_, memk, same⟩, fun _ => missing⟩

variable [Add α] [Sub α] [Mul α] [Div α] [Neg α] [Elementary α]

/-- A copy is worth what the expression is where settled leaves keep the value from the time of the
copy and the others have that of the moment. -/
theorem eval_frozen_settled (found : l.Findable s) (e : Expr α) (env : Handle → α) :
    (e.frozen s l).eval env = e.eval fun p =>
      if Settled s l p then s.value (standIn s l p) else env (standIn s l p) := by
  rw [eval_frozen]
  apply eval_congr
  intro p _
  rw [frozenLeaf_eq found]
  split
  next => rfl
  next => rfl

/-- **A frozen copy reads stand-ins and freezes what is settled.** It has the shape of the
expression, and its value at the time of the copy; after that the settled leaves stay, and only the
others follow the parameters that they read. What it still mentions of the list is neither known nor
eliminated, but for the want of a representative. -/
theorem frozen_stands_in (found : l.Findable s) (e : Expr α) :
    (∀ p r, ReadsFor s l p r ↔ r = standIn s l p) ∧
    e.SameShape (e.frozen s l) ∧
    (e.frozen s l).eval s.value = e.eval (fun p => s.value (standIn s l p)) ∧
    (∀ env : Handle → α, (e.frozen s l).eval env = e.eval fun p =>
      if Settled s l p then s.value (standIn s l p) else env (standIn s l p)) ∧
    (∀ env env' : Handle → α, (∀ p ∈ e.params, ¬Settled s l p →
        env (standIn s l p) = env' (standIn s l p)) →
      (e.frozen s l).eval env = (e.frozen s l).eval env') ∧
    (DirectlyRepresented s l → ∀ q ∈ (e.frozen s l).params, l.Lists s q →
      (s.get q).known = false ∧ ((s.get q).isSubstituted = true →
        ∀ r ∈ l.toList, s.id r ≠ (s.get q).representative)) := by
  have later := eval_frozen_settled found e
  -- the value now and the values later are one statement, with the present values for the others
  refine ⟨fun p r => readsFor_iff found, sameShape_frozen found e, ?_, later, ?_, ?_⟩
  · rw [later]
    simp only [ite_self]
  · intro env env' agree
    rw [later, later]
    apply eval_congr
    intro p hp
    split
    next => rfl
    next free => exact agree p hp free
  · intro direct q mem lists
    exact free_of_mem_params_frozen found direct mem lists

/-- Five parameters. The first is free, and the second eliminated in its favour; the third is known;
the fourth is eliminated in favour of one that does not exist. The last has no id. -/
def markedFive : Store Float :=
  ⟨#[{ id := 1, value := 2, symbol := "x" },
    { id := 2, value := 7, symbol := "y", tag := substitutedTag, representative := 1 },
    { id := 3, value := 3, symbol := "z", known := true },
    { id := 4, value := 5, symbol := "v", tag := substitutedTag, representative := 9 },
    { value := 1, symbol := "w", known := true }]⟩

/-- All of the five but the last. -/
def firstFour : ParamList := ⟨#[⟨0⟩, ⟨1⟩, ⟨2⟩, ⟨3⟩]⟩

/-- The expression `(y * z + v) - w`. -/
def fourLeaves : Expr Float :=
  .binary .minus (.binary .plus (.binary .times (.param ⟨1⟩) (.param ⟨2⟩)) (.param ⟨3⟩))
    (.param ⟨4⟩)

/-- The copy is `(x * 3 + v) - w`. -/
theorem frozen_stands_in_fourLeaves :
    firstFour.Findable markedFive ∧ DirectlyRepresented markedFive firstFour ∧
      (fourLeaves.frozen markedFive firstFour).params = [⟨0⟩, ⟨3⟩, ⟨4⟩] ∧
      fourLeaves.SameShape (fourLeaves.frozen markedFive firstFour) ∧
      (fourLeaves.frozen markedFive firstFour).eval markedFive.value =
        fourLeaves.eval (fun p => markedFive.value (standIn markedFive firstFour p)) ∧
      (markedFive.get ⟨3⟩).known = false := by
  have found : firstFour.Findable markedFive := by
    unfold ParamList.Findable
    decide +kernel
  have direct : DirectlyRepresented markedFive firstFour := by
    unfold DirectlyRepresented
    decide +kernel
  have mentions : (fourLeaves.frozen markedFive firstFour).params = [⟨0⟩, ⟨3⟩, ⟨4⟩] := by
    decide +kernel
  have lists : firstFour.Lists markedFive ⟨3⟩ := by decide +kernel
  obtain ⟨_, shape, value, _, _, free⟩ := frozen_stands_in found fourLeaves
  have mem : ⟨3⟩ ∈ (fourLeaves.frozen markedFive firstFour).params := by
    rw [mentions]
    simp
  exact ⟨found, direct, mentions, shape, value, (free direct ⟨3⟩ mem lists).1⟩

end Expr

end SketchSolver

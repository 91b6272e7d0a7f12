import SketchSolver.Proofs.Problem.AloneStage

/-!
# Numbers of groups

Every equation that is solved alone makes a group with its unknown (`LoneGroup`). Both get the
number of the group as their tag, and the Jacobian of the group is that of all parameters and
equations with this tag. Groups are numbered from one on, and nothing bounds their number; but
two tags are reserved, one for eliminated parameters and one for equations that are used up.

`Tagging out group p s` says who carries which tag before a group, whatever its number. Each
group of a chain hands it on to the next (`Tagging.step`). From it one reads what else a group
selects: other parameters exactly when its number is the tag of what is eliminated and
something is (`Tagging.columns_iff`), and other equations exactly when it is the tag of what
is used up and something is (`Tagging.selected_iff`).

`Stage` would not do for this. It says that equations of earlier groups hold, and for that it
needs that no group has the number of a reserved tag, which is the very thing in question
here. `Tagging` gives up on values altogether and keeps what is true up to any number: an
eliminated parameter has the tag for elimination, any other one has a tag below the number of
the group, and likewise for equations. Whether two of these can be equal is then decided by
comparing numbers.

What was eliminated is a parameter `out` of the invariant. It is fixed by merging, before the
first group, and the chain does not change it; to say once more which parameters these are,
in terms of equations, is left to `Problem.Isolation`.

A solve either gets to the group of an equation, with all groups before it solved, or it does
not: it fails earlier, or the equation has no single unknown when its turn comes.
`solveAlonesFrom_append` cuts the chain at that point.
-/

namespace SketchSolver

section Selecting

variable {β : Type} {x : β} {before after : List β}

/-! ## Selecting by a tag -/

/-- An item that is selected is the only one when the items around it are not. -/
theorem filter_middle_iff {f : β → Bool} (own : f x = true) :
    (before ++ x :: after).filter f = [x] ↔ ∀ y ∈ before ++ after, f y = false := by
  rw [List.filter_append, List.filter_cons_of_pos own]
  constructor
  · intro eq y mem
    have length := congrArg List.length eq
    rw [List.length_append, List.length_cons, List.length_singleton] at length
    have none : (before ++ after).filter f = [] := by
      apply List.eq_nil_of_length_eq_zero
      rw [List.filter_append, List.length_append]
      omega
    exact (Bool.not_eq_true _).mp (List.filter_eq_nil_iff.mp none y mem)
  · intro others
    have none : ∀ l : List β, (∀ y ∈ l, y ∈ before ++ after) → l.filter f = [] := by
      intro l sub
      apply List.filter_eq_nil_iff.mpr
      intro y mem
      rw [others y (sub y mem)]
      exact Bool.false_ne_true
    rw [none before fun y mem => List.mem_append_left _ mem,
      none after fun y mem => List.mem_append_right _ mem, List.nil_append]

/-- Where all other tags are smaller than a number, or reserved for what is marked, the number
selects one item alone unless it is the reserved tag itself and something else is marked. -/
theorem filter_tag_iff {tag : β → Nat} {marked : β → Prop} {number reserved : Nat}
    (own : tag x = number) (high : ∀ y ∈ before ++ after, marked y → tag y = reserved)
    (low : ∀ y ∈ before ++ after, ¬marked y → tag y < number) :
    ((before ++ x :: after).filter fun y => tag y == number) = [x] ↔
      ¬(number = reserved ∧ ∃ y ∈ before ++ after, marked y) := by
  rw [filter_middle_iff (f := fun y => tag y == number) (beq_iff_eq.mpr own)]
  constructor
  · rintro alone ⟨eq, y, mem, mark⟩
    have differs := beq_eq_false_iff_ne.mp (alone y mem)
    exact differs ((high y mem mark).trans eq.symm)
  · intro free y mem
    apply beq_eq_false_iff_ne.mpr
    by_cases mark : marked y
    · rw [high y mem mark]
      intro eq
      exact free ⟨eq.symm, y, mem, mark⟩
    · exact Nat.ne_of_lt (low y mem mark)

/-- An item that is not marked does not count among those that are. -/
theorem exists_middle_iff (marked : β → Prop) (plain : ¬marked x) :
    (∃ y ∈ before ++ x :: after, marked y) ↔ ∃ y ∈ before ++ after, marked y := by
  simp only [List.perm_middle.mem_iff, List.mem_cons, exists_eq_or_imp, plain, false_or]

end Selecting

variable {α : Type}

/-- The group of an equation that is solved alone, when its Jacobian is to be written. -/
structure LoneGroup (α : Type) where
  number : Nat
  /-- The equation before it is tagged. -/
  equation : Equation α
  unknown : Handle
  /-- The problem in which the equation has the number as its tag. -/
  problem : Problem α
  /-- The store in which the unknown has the number as its tag. -/
  store : Store α

namespace LoneGroup

variable [Zero α]

/-- The parameters that a group selects. -/
def columns (g : LoneGroup α) : List Handle :=
  g.problem.params.toList.filter fun h => g.store.tag h == g.number

/-- The equations that a group selects. -/
def selected (g : LoneGroup α) : List (Equation α) :=
  g.problem.equations.toList.filter fun e => e.tag == g.number

variable [One α] [Add α] [Div α]

/-- The Jacobian of a group. -/
def jacobian (g : LoneGroup α) : Except TooMany (Jacobian α) :=
  Jacobian.write g.number g.store g.problem.params g.problem.equations
    g.problem.settings.maxUnknowns

variable {g : LoneGroup α} {j : Jacobian α}

/-- The Jacobian is of what is selected, in which each equation counts as it was before. -/
theorem jacobian_ok (written : g.jacobian = .ok j) :
    j.columns = g.columns ∧
      j.rows = g.selected.map (Jacobian.row g.store g.problem.params j.columns) :=
  Jacobian.write_ok written

/-- The Jacobian can be written where not too much is selected. -/
theorem jacobian_eq_ok (few : g.columns.length ≤ g.problem.settings.maxUnknowns)
    (few' : g.selected.length ≤ g.problem.settings.maxUnknowns) :
    g.jacobian = .ok ⟨g.columns,
      g.selected.map (Jacobian.row g.store g.problem.params g.columns)⟩ := by
  unfold columns at few
  unfold selected at few'
  unfold jacobian Jacobian.write
  simp only
  rw [if_neg (Nat.not_lt.mpr few), if_neg (Nat.not_lt.mpr few')]
  rfl

/-- Too many columns are noticed first. -/
theorem jacobian_eq_error (many : g.problem.settings.maxUnknowns < g.columns.length) :
    g.jacobian = .error ⟨g.columns.length, g.problem.settings.maxUnknowns⟩ := by
  unfold columns at many
  unfold jacobian Jacobian.write
  simp only
  rw [if_pos many]
  rfl

/-- There is one row exactly when one equation is selected. -/
theorem rows_iff (written : g.jacobian = .ok j)
    (mem : { g.equation with tag := g.number } ∈ g.selected) :
    j.rows = [Jacobian.row g.store g.problem.params j.columns g.equation] ↔
      g.selected = [{ g.equation with tag := g.number }] := by
  rw [(jacobian_ok written).2, List.map_eq_singleton_iff]
  constructor
  · rintro ⟨e, eq, _⟩
    rw [eq] at mem
    rw [eq, List.mem_singleton.mp mem]
  · intro eq
    exact ⟨_, eq, rfl⟩

end LoneGroup

namespace Problem

variable [Zero α] {p q : Problem α} {s t : Store α} {g : LoneGroup α} {id : Int}

/-- The group with the next number, if the equation with an id can be solved alone. -/
def loneGroup? (p : Problem α) (s : Store α) (number : Nat) (id : Int) : Option (LoneGroup α) :=
  (p.equations.byId? id).bind fun e => (p.loneUnknown? s e).map fun h =>
    ⟨number, e, h, { p with equations := p.equations.setTag id number }, s.setTag h number⟩

/-- A group is made of an equation that is there and has a single unknown. -/
theorem loneGroup?_eq_some_iff {number : Nat} : p.loneGroup? s number id = some g ↔
    ∃ e h, p.equations.byId? id = some e ∧ p.loneUnknown? s e = some h ∧
      g = ⟨number, e, h, { p with equations := p.equations.setTag id number },
        s.setTag h number⟩ := by
  unfold loneGroup?
  simp only [Option.bind_eq_some_iff, Option.map_eq_some_iff, eq_comm (b := g), exists_and_left]

/-- What a group is made of. -/
theorem loneGroup?_spec {number : Nat} (lone : p.loneGroup? s number id = some g) :
    p.equations.byId? id = some g.equation ∧ p.loneUnknown? s g.equation = some g.unknown ∧
      g.number = number ∧ g.problem = { p with equations := p.equations.setTag id number } ∧
      g.store = s.setTag g.unknown number := by
  obtain ⟨e, h, found, free, rfl⟩ := loneGroup?_eq_some_iff.mp lone
  exact ⟨found, free, rfl, rfl, rfl⟩

section Chain

variable [One α] [Add α] [Sub α] [Mul α] [Div α] [Neg α] [LT α] [BEq α]
variable [DecidableLT α] [Elementary α] {tolerance : α}

/-- Where an equation makes a group, the group is solved before later equations are looked at. -/
theorem solveAlonesFrom_loneGroup {number : Nat} {ids : List Int}
    (lone : p.loneGroup? s number id = some g) :
    solveAlonesFrom tolerance number (id :: ids) p s =
      match g.problem.solveAlone tolerance g.number g.unknown g.store with
      | (.error e, t) => (.error e, g.problem, t)
      | (.ok (), t) => solveAlonesFrom tolerance (number + 1) ids g.problem t := by
  obtain ⟨e, h, found, free, rfl⟩ := loneGroup?_eq_some_iff.mp lone
  have bound : (p.equations.byId? id).bind (p.loneUnknown? s) = some h :=
    Option.bind_eq_some_iff.mpr ⟨e, found, free⟩
  conv => lhs; unfold solveAlonesFrom
  rewrite [bound]
  rfl

/-- An equation that makes no group is passed over. -/
theorem solveAlonesFrom_of_none {number : Nat} {ids : List Int}
    (none : p.loneGroup? s number id = none) :
    solveAlonesFrom tolerance number (id :: ids) p s =
      solveAlonesFrom tolerance number ids p s := by
  have unbound : (p.equations.byId? id).bind (p.loneUnknown? s) = Option.none := by
    unfold loneGroup? at none
    simp only [Option.bind_eq_none_iff, Option.map_eq_none_iff] at none ⊢
    exact none
  conv => lhs; unfold solveAlonesFrom
  rw [unbound]

/-- A chain of groups goes on with later equations where it stops after the first ones. -/
theorem solveAlonesFrom_append {later : List Int} {next : Nat} :
    ∀ {ids : List Int} {number : Nat} {p : Problem α} {s : Store α},
    solveAlonesFrom tolerance number ids p s = (.ok next, q, t) →
    solveAlonesFrom tolerance number (ids ++ later) p s =
      solveAlonesFrom tolerance next later q t
  | [], number, p, s, solved => by
    cases solved
    rfl
  | id :: ids, number, p, s, solved => by
    rw [List.cons_append]
    cases lone : p.loneGroup? s number id with
    | none =>
      rw [solveAlonesFrom_of_none lone] at solved ⊢
      exact solveAlonesFrom_append solved
    | some g =>
      rw [solveAlonesFrom_loneGroup lone] at solved ⊢
      split at solved
      next => simp at solved
      next solvedAlone =>
        exact solveAlonesFrom_append solved

end Chain

end Problem

/-! ## Who carries which tag -/

/-- Who carries which tag before a group, whatever its number: what was eliminated and what was used
up keep their tags, and every other tag is the number of an earlier group, or zero. -/
structure Tagging [Zero α] (out : Handle → Prop) (group : Nat) (p : Problem α) (s : Store α) :
    Prop where
  ready : p.Ready s
  eliminated : ∀ h ∈ p.params.toList, out h → s.tag h = substitutedTag
  taken : ∀ h ∈ p.params.toList, ¬out h → s.tag h < group
  usedUp : ∀ e ∈ p.equations.toList, e.expr.paramDifference?.isSome → e.tag = usedUpTag
  solved : ∀ e ∈ p.equations.toList, ¬e.expr.paramDifference?.isSome → e.tag < group

/-- What is eliminated and used up in a stage is so before every later group. -/
theorem Stage.tagging [Zero α] [Add α] [Sub α] [Mul α] [Div α] [Neg α] [LT α] [DecidableLT α]
    [Elementary α] {tolerance : α} {group : Nat} {p : Problem α} {s : Store α}
    (stage : Stage tolerance group p s) :
    Tagging (fun h => s.tag h = substitutedTag) group p s where
  ready := stage.ready
  eliminated _ _ gone := gone
  taken h mem kept := (stage.marked.low h mem).resolve_right kept
  usedUp e he some := (stage.usedUp e he).mpr some
  solved e he none := (stage.low e he).resolve_right fun used => none ((stage.usedUp e he).mp used)

namespace Tagging

variable [Zero α] {out : Handle → Prop} {group : Nat} {p : Problem α} {s t : Store α}
variable {g : LoneGroup α} {id : Int}

/-- What makes a group was not eliminated, nor used up. -/
theorem fresh (tagging : Tagging out group p s) (lone : p.loneGroup? s group id = some g) :
    g.unknown ∈ p.params.toList ∧ ¬out g.unknown ∧ ¬g.equation.expr.paramDifference?.isSome ∧
      ∀ k ∈ g.equation.expr.params, k = g.unknown := by
  obtain ⟨found, free, _⟩ := Problem.loneGroup?_spec lone
  have he : g.equation ∈ p.equations.toList := (IdList.find?_some found).1
  have memh := Problem.loneUnknown?_mem free
  obtain ⟨freee, freeh, only⟩ := Problem.loneUnknown?_spec tagging.ready he free
  -- neither has a tag yet, and the reserved ones are not zero
  refine ⟨memh, fun gone => ?_, fun some => ?_, only⟩
  · have tag := tagging.eliminated g.unknown memh gone
    rw [freeh] at tag
    exact absurd tag (by decide)
  · have tag := tagging.usedUp g.equation he some
    rw [freee] at tag
    exact absurd tag (by decide)

/-- Making a group leaves who carries which tag before the next one. -/
theorem take (tagging : Tagging out group p s) (lone : p.loneGroup? s group id = some g) :
    Tagging out (group + 1) g.problem g.store := by
  obtain ⟨_, kept, plain, _⟩ := tagging.fresh lone
  obtain ⟨found, _, _, problem, store⟩ := Problem.loneGroup?_spec lone
  have exprs := EquationList.exprs_of_untagged
    (EquationList.untagged_setTag p.equations id group)
  rw [problem, store]
  refine ⟨tagging.ready.congr rfl exprs fun k => Store.id_setTag s g.unknown k group,
    fun k mem gone => ?_, fun k mem stays => ?_, fun e he some => ?_, fun e he none => ?_⟩
  · have ne : ¬g.unknown = k := by
      intro eq
      rw [eq] at kept
      exact kept gone
    rw [Store.tag_setTag, if_neg ne]
    exact tagging.eliminated k mem gone
  · rw [Store.tag_setTag]
    split
    next => omega
    next =>
      have := tagging.taken k mem stays
      omega
  · rcases EquationList.mem_setTag found he with rfl | old
    · exact absurd some plain
    · exact tagging.usedUp e old some
  · rcases EquationList.mem_setTag found he with rfl | old
    · exact Nat.lt_succ_self group
    · have := tagging.solved e old none
      omega

/-- Tags and ids are all that counts of a store. -/
theorem congr (tagging : Tagging out group p s) (ids : ∀ h, t.id h = s.id h)
    (tags : ∀ h, t.tag h = s.tag h) : Tagging out group p t := by
  refine ⟨tagging.ready.congr rfl rfl ids, fun k mem gone => ?_, fun k mem stays => ?_,
    tagging.usedUp, tagging.solved⟩
  · rw [tags]
    exact tagging.eliminated k mem gone
  · rw [tags]
    exact tagging.taken k mem stays

section Solve

variable [One α] [Add α] [Sub α] [Mul α] [Div α] [Neg α] [LT α] [BEq α]
variable [DecidableLT α] [Elementary α] {tolerance : α}

/-- **A group that is solved hands on who carries which tag.** -/
theorem step (tagging : Tagging out group p s) (lone : p.loneGroup? s group id = some g)
    (solved : g.problem.solveAlone tolerance g.number g.unknown g.store = (.ok (), t)) :
    Tagging out (group + 1) g.problem t := by
  obtain ⟨j, u, _, _, moved, _, rfl⟩ := Problem.solveAlone_ok solved
  refine (tagging.take lone).congr (fun h => ?_) fun h => ?_
  · rw [Store.id_setKnown]
    exact moved.id h
  · rw [Store.tag_setKnown]
    exact moved.tag h

/-- **A chain of groups hands on who carries which tag.** -/
theorem chain {ids : List Int} {next : Nat} {q : Problem α} (tagging : Tagging out group p s)
    (solved : Problem.solveAlonesFrom tolerance group ids p s = (.ok next, q, t)) :
    Tagging out next q t := by
  refine induction_solveAlonesFrom (motive := Tagging out) ?_ solved tagging
  intro group p s t id e h _ found free solved tagging
  exact tagging.step (Problem.loneGroup?_eq_some_iff.mpr ⟨e, h, found, free, rfl⟩) solved

end Solve

/-! ## What a group selects -/

/-- **A group selects its unknown alone**, unless its number is the tag of what is eliminated. -/
theorem columns_iff (tagging : Tagging out group p s) (lone : p.loneGroup? s group id = some g) :
    g.columns = [g.unknown] ↔ ¬(group = substitutedTag ∧ ∃ h ∈ p.params.toList, out h) := by
  obtain ⟨mem, kept, _⟩ := tagging.fresh lone
  obtain ⟨_, _, number, problem, store⟩ := Problem.loneGroup?_spec lone
  obtain ⟨before, after, split⟩ := List.append_of_mem mem
  have nodup := tagging.ready.sorted.nodup
  rw [split, List.perm_middle.nodup_iff, List.nodup_cons] at nodup
  -- the unknown is listed once, so no other tag changes
  have other : ∀ k ∈ before ++ after, k ∈ p.params.toList ∧ g.store.tag k = s.tag k := by
    intro k rest
    rw [split, List.perm_middle.mem_iff, store, Store.tag_setTag, if_neg]
    · exact ⟨List.mem_cons_of_mem _ rest, rfl⟩
    · intro eq
      rw [eq] at nodup
      exact nodup.1 rest
  have own : g.store.tag g.unknown = group := by
    rw [store, Store.tag_setTag, if_pos rfl]
  unfold LoneGroup.columns
  rw [number, problem]
  show (p.params.toList.filter fun k => g.store.tag k == group) = _ ↔ _
  rw [split, exists_middle_iff out kept]
  refine filter_tag_iff own (fun k rest gone => ?_) fun k rest stays => ?_
  · obtain ⟨listed, tag⟩ := other k rest
    rw [tag]
    exact tagging.eliminated k listed gone
  · obtain ⟨listed, tag⟩ := other k rest
    rw [tag]
    exact tagging.taken k listed stays

/-- **A group selects its equation alone**, unless its number is the tag of what is used up. -/
theorem selected_iff (tagging : Tagging out group p s) (lone : p.loneGroup? s group id = some g) :
    g.selected = [{ g.equation with tag := group }] ↔
      ¬(group = usedUpTag ∧ ∃ e ∈ p.equations.toList, e.expr.paramDifference?.isSome) := by
  obtain ⟨_, _, plain, _⟩ := tagging.fresh lone
  obtain ⟨found, _, number, problem, _⟩ := Problem.loneGroup?_spec lone
  obtain ⟨before, after, split, tagged⟩ := EquationList.setTag_split found group
  have other : ∀ e ∈ before ++ after, e ∈ p.equations.toList := by
    intro e rest
    rw [split, List.perm_middle.mem_iff]
    exact List.mem_cons_of_mem _ rest
  unfold LoneGroup.selected
  rw [number, problem]
  show ((p.equations.setTag id group).toList.filter fun e => e.tag == group) = _ ↔ _
  rw [tagged, split, exists_middle_iff (fun e : Equation α => e.expr.paramDifference?.isSome) plain]
  exact filter_tag_iff rfl (fun e rest => tagging.usedUp e (other e rest))
    fun e rest => tagging.solved e (other e rest)

end Tagging

end SketchSolver

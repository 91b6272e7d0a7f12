import SketchSolver.Proofs.Session.Bench
import SketchSolver.Proofs.Session.Filing

/-!
# Everything that a caller can do

A caller makes moves; besides, it can throw away all spaces, and take entities off the
sketch behind the session's back. Both spoil the books of the sketch: after the first one
constraints are registered that nobody hosts, after the second one constraints are hosted
on entities that are not there. So `Kept` does not survive them.

The constraints stay on file, however (`filed_history`). That is what remains: each hosted
constraint tells its space and was created on this sketch, the spaces stand where their
indices say, and families of entities are in order. It is enough for what records say
about constraints and for what a batch does, and it holds of every session that a caller
can arrive at.

The proof goes by cases over deeds (`Filed.carryOut`). A move is an operation on the
session, for which `Session.Files` is proved elsewhere; the constraints that it hands over
were created on the sketch, because everything that is held was (`Filed.of_take`). What
comes into the hands of the caller was created as well, and that is asked for by
`Filed.step`. Entities that are taken off go with their points, so no point is left
without its shape.
-/

namespace SketchSolver

variable {α : Type}

/-- What a caller can do with a bench. -/
inductive Deed (α : Type) where
  | move (move : Move α)
  | reset
  | takeOff (id : EntityId)

namespace Session

variable {s : Session α}

variable [Zero α] [One α] [Add α] [Sub α] [Mul α] [Div α] [Neg α] [LT α] [LE α] [BEq α]
variable [DecidableLT α] [DecidableLE α] [Elementary α]

/-- An operation to which no constraint is handed keeps what is on file. -/
theorem operate_files (s : Session α) {op : Operation α} (enclosed : op.Enclosed) :
    Files s (op.apply s) := by
  cases op with
  | configure settings => exact withSettings_files s settings
  | addSpace => exact addSpace_files s
  | reset => exact enclosed.elim
  | clear => exact clear_files s
  | startTransaction => exact startTransaction_files s
  | finishTransaction => exact finishTransaction_files s
  | refresh => exact refresh_files s
  | draw figure => exact (files_of_retains (.draw s.sketch figure)).trans (refresh_files _)
  | create kind ids => exact enclosed.elim
  | add index c => exact enclosed.elim
  | addConstraints cs => exact enclosed.elim
  | constrain kind ids => exact constrain_files s kind ids
  | constrainDecorated kind ids => exact constrainDecorated_files s kind ids
  | removeConstraints ids => exact enclosed.elim
  | removeEntities ids => exact removeEntities_files s ids
  | solve rough => exact solve_files s rough
  | solveFine => exact solveFine_files s
  | prepare dragged force => exact prepare_files s dragged force
  | drag id dx dy => exact drag_files s id dx dy
  | endDrag => exact solve_files s false
  | restore records => exact restore_files s records

end Session

namespace Bench

variable {b : Bench α}

/-- What is hosted is on file, and what is held was created on the sketch. -/
structure Filed (b : Bench α) : Prop where
  session : b.session.Filed
  held : ∀ c ∈ b.held, b.session.sketch.Traces c

theorem filed_create (name : String) (settings : Settings α) : (create name settings).Filed := by
  have numbered : ({ name } : Sketch α).Numbered := fun _ he => absurd he List.not_mem_nil
  exact ⟨Session.filed_create (.empty name) numbered settings,
    fun _ hc => absurd hc List.not_mem_nil⟩

/-- A step keeps what is on file, if what has come into the hands of the caller was created on the
sketch. -/
theorem Filed.step {s : Session α} {held : List Constraint} (filed : b.Filed)
    (files : b.session.Files s) (new : ∀ c ∈ held, c ∉ b.held → s.sketch.Traces c) :
    Filed ⟨s, held⟩ := by
  obtain ⟨session, retains⟩ := files filed.session
  refine ⟨session, fun c hc => ?_⟩
  by_cases old : c ∈ b.held
  · exact (filed.held c old).retain retains
  · exact new c hc old

/-- What is taken from the hands of the caller was created on the sketch. -/
theorem Filed.of_take {ids : List ConstraintId} {cs rest : List Constraint} (filed : b.Filed)
    (taken : take ids b.held = some (cs, rest)) :
    (∀ c ∈ cs, b.session.sketch.Traces c) ∧ ∀ c ∈ rest, c ∈ b.held := by
  have same := perm_of_take taken
  exact ⟨fun c hc => filed.held c (same.mem_iff.mpr (List.mem_append_left _ hc)),
    fun c hc => same.mem_iff.mpr (List.mem_append_right _ hc)⟩

variable [Zero α] [One α] [Add α] [Sub α] [Mul α] [Div α] [Neg α] [LT α] [LE α] [BEq α]
variable [DecidableLT α] [DecidableLE α] [Elementary α]

/-- The bench after a deed. Taking off an entity that is not there changes nothing. -/
def carryOut (b : Bench α) : Deed α → Bench α
  | .move move => b.apply move
  | .reset => { b with session := b.session.reset }
  | .takeOff id =>
    match b.session.sketch.remove id with
    | .ok (_, sketch) => { b with session := { b.session with sketch } }
    | .error _ => b

/-- The bench after some deeds. -/
def history (deeds : List (Deed α)) (b : Bench α) : Bench α := deeds.foldl carryOut b

/-- The cases of a move: only creating and taking out bring new constraints into the hands of the
caller. -/
theorem Filed.apply (filed : b.Filed) (move : Move α) : (b.apply move).Filed := by
  cases move with
  | draw figure =>
    exact filed.step (Session.files_of_retains (.draw _ figure)) fun c hc new => absurd hc new
  | create kind ids =>
    unfold Bench.apply
    simp only
    split
    next => exact filed
    next created =>
      obtain ⟨files, traces⟩ := Session.create_files created
      refine filed.step files fun c hc new => ?_
      obtain rfl := (List.mem_cons.mp hc).resolve_right new
      exact traces filed.session
  | add index id =>
    unfold Bench.apply
    simp only
    split
    next taken =>
      obtain ⟨traces, old⟩ := filed.of_take taken
      exact filed.step (Session.addToSpace_files (traces _ (List.mem_singleton_self _)))
        fun c hc new => absurd (old c hc) new
    next => exact filed
  | addConstraints ids =>
    unfold Bench.apply
    simp only
    split
    next taken =>
      obtain ⟨traces, old⟩ := filed.of_take taken
      exact filed.step (Session.addConstraints_files traces) fun c hc new => absurd (old c hc) new
    next => exact filed
  | removeConstraints ids =>
    obtain ⟨files, traces⟩ := Session.removeConstraints_files b.session ids
    unfold Bench.apply
    simp only
    generalize b.session.removeConstraints ids = r at files traces
    obtain ⟨_ | removed, s⟩ := r
    · exact filed.step files fun c hc new => absurd hc new
    · refine filed.step files fun c hc new => ?_
      exact traces removed filed.session rfl c ((List.mem_append.mp hc).resolve_right new)
  | operate op enclosed =>
    exact filed.step (Session.operate_files b.session enclosed) fun c hc new => absurd hc new

/-- **What is on file stays on file**, whatever the caller does. -/
theorem Filed.carryOut (filed : b.Filed) (deed : Deed α) : (b.carryOut deed).Filed := by
  cases deed with
  | move move => exact filed.apply move
  | reset => exact filed.step (Session.reset_files b.session) fun c hc new => absurd hc new
  | takeOff id =>
    unfold Bench.carryOut
    simp only
    split
    next ids sketch removed =>
      have retains : b.session.sketch.Retains sketch := by
        unfold Sketch.remove at removed
        cases found : b.session.sketch.entity id with
        | error e =>
          rw [found] at removed
          simp [bind, Except.bind] at removed
        | ok e =>
          rw [found] at removed
          cases removed
          exact .without fun id => List.mem_reverse
      exact filed.step (Session.files_of_retains retains) fun c hc new => absurd hc new
    next => exact filed

/-- Whatever a caller has done, the constraints of its session are on file. -/
theorem filed_history : ∀ (deeds : List (Deed α)) {b : Bench α}, b.Filed → (history deeds b).Filed
  | [], _, filed => filed
  | deed :: deeds, _, filed => filed_history deeds (filed.carryOut deed)

end Bench

end SketchSolver

import SketchSolver.Proofs.Session.Hosting
import SketchSolver.Proofs.Space.Outcomes

/-!
# Working on one space after the other

An operation that is applied to every space changes the ids of parameters that other
spaces list. In an orderly session a space that is settled stays so while the
others are worked on (`Swept.keep`), so all are settled in the end
(`settled_onEach`).

`Swept` says what working on some spaces in turn may do: each hosts no more than before,
all of them together host the same constraints, no space begins to put off solving, and of
the sketch only the parameters change. Its last part is about a space that is not among
them. If what it shares with them is drawn, then it stays settled. It is asked of any such
space, because in the induction it is used for spaces that come before and for those that
come after.

The induction is on the list of spaces. The first space is worked on, and then the rest on
the sketch that it left; what the rest does to the first is the `keep` of the tail, and
what the first does to the rest is `Worked.keep`, which has been proved for a single
space. Sharing is allowed by `Orderly`, and that is kept by `Swept.orderly`.

An operation that stops at the first failure sweeps the spaces before it and leaves those
behind it (`swept_untilFailure`). Both kinds of sweep are needed: solving goes on after a
failure, and preparing does not.
-/

namespace SketchSolver.Session

open Space (Worked Settled)

variable {α : Type} [Zero α]

/-- What working on some spaces in turn may do. -/
structure Swept (spaces : List (Space α)) (sk : Sketch α) (spaces' : List (Space α))
    (sk' : Sketch α) : Prop where
  fewer : List.Forall₂ Fewer spaces spaces'
  constraints : (spaces'.flatMap (·.constraints)).Perm (spaces.flatMap (·.constraints))
  idle : (∀ sp ∈ spaces, sp.inTransaction = false) → ∀ sp ∈ spaces', sp.inTransaction = false
  sketch : sk' = { sk with store := sk'.store }
  keep : ∀ tp, (∀ sp ∈ spaces, ∀ h, h ∈ sp.hostedParams → h ∈ tp.hostedParams → h ∈ sk.params) →
    Settled tp sk → Settled tp sk'

variable {spaces spaces' : List (Space α)} {sp sp' : Space α} {sk sk' : Sketch α}

namespace Swept

theorem refl (spaces : List (Space α)) (sk : Sketch α) : Swept spaces sk spaces sk :=
  ⟨forall₂_refl spaces, .refl _, id, rfl, fun _ _ settled => settled⟩

/-- The first space is worked on, and the others on what it leaves. -/
theorem cons (worked : Worked sp sk sp' sk') {sk'' : Sketch α}
    (swept : Swept spaces sk' spaces' sk'') : Swept (sp :: spaces) sk (sp' :: spaces') sk'' := by
  have params : sk'.params = sk.params := worked.confined.params
  refine ⟨.cons (.of_perm worked.index worked.constraints worked.conflicting) swept.fewer,
    worked.constraints.append swept.constraints, ?_, ?_, ?_⟩
  · intro idle sp₁ mem
    rcases List.mem_cons.mp mem with rfl | mem
    · exact worked.idle (idle sp List.mem_cons_self)
    · exact swept.idle (fun sp₂ mem₂ => idle sp₂ (List.mem_cons_of_mem _ mem₂)) sp₁ mem
  · rw [swept.sketch, worked.sketch]
  · intro tp shared settled
    refine swept.keep tp (fun sp₁ mem h hh hh' => ?_) (settled.keep worked.confined ?_)
    · rw [params]
      exact shared sp₁ (List.mem_cons_of_mem _ mem) h hh hh'
    · exact shared sp List.mem_cons_self

theorem orderly (swept : Swept spaces sk spaces' sk') (orderly : Orderly spaces sk) :
    Orderly spaces' sk' := by
  rw [swept.sketch]
  exact (orderly.of_spaces swept.fewer).of_entities rfl rfl (Nat.le_refl _)

end Swept

section OnEach

variable {β : Type} {act : SpaceAction α β}

omit [Zero α] in
/-- What an operation leaves of the spaces does not depend on which of them failed. -/
theorem onEach_cons (act : SpaceAction α β) (sp : Space α) (rest : List (Space α))
    (sk : Sketch α) :
    (onEach act (sp :: rest) sk).2 =
      ((act sp sk).2.1 :: (onEach act rest (act sp sk).2.2).2.1,
        (onEach act rest (act sp sk).2.2).2.2) := by
  rw [onEach]
  simp only
  split
  next => rfl
  next => rfl

/-- An operation that works on each space sweeps all of them. -/
theorem swept_onEach : ∀ {spaces : List (Space α)} (sk : Sketch α),
    (∀ sp ∈ spaces, ∀ sk₁, Worked sp sk₁ (act sp sk₁).2.1 (act sp sk₁).2.2) →
    Swept spaces sk (onEach act spaces sk).2.1 (onEach act spaces sk).2.2
  | [], sk, _ => .refl [] sk
  | sp :: rest, sk, works => by
    rw [onEach_cons]
    exact (swept_onEach _ fun tp mem => works tp (List.mem_cons_of_mem _ mem)).cons
      (works sp List.mem_cons_self sk)

/-- **Work that settles each space settles all of them**, whichever come first: those to come stay as
they are, and those that are done too. Where work only keeps what is settled, `due` is false. -/
theorem settled_onEach (due : Prop) : ∀ {spaces : List (Space α)} (sk : Sketch α),
    (∀ sp ∈ spaces, ∀ sk₁, Worked sp sk₁ (act sp sk₁).2.1 (act sp sk₁).2.2) →
    (∀ sp ∈ spaces, ∀ sk₁, sk₁ = { sk with store := sk₁.store } → (due ∨ Settled sp sk₁) →
      Settled (act sp sk₁).2.1 (act sp sk₁).2.2) →
    spaces.Pairwise (Compatible sk) → (due ∨ ∀ sp ∈ spaces, Settled sp sk) →
    ∀ sp ∈ (onEach act spaces sk).2.1, Settled sp (onEach act spaces sk).2.2
  | [], sk, _, _, _, _ => fun sp mem => absurd mem List.not_mem_nil
  | sp :: rest, sk, works, settles, compatible, before => by
    obtain ⟨first, later⟩ := List.pairwise_cons.mp compatible
    have worked := works sp List.mem_cons_self sk
    have works' : ∀ tp ∈ rest, ∀ sk₁, Worked tp sk₁ (act tp sk₁).2.1 (act tp sk₁).2.2 :=
      fun tp mem => works tp (List.mem_cons_of_mem _ mem)
    have settled := settles sp List.mem_cons_self sk rfl
      (before.imp_right fun all => all sp List.mem_cons_self)
    rw [onEach_cons]
    intro tp mem
    rcases List.mem_cons.mp mem with rfl | mem
    · -- the first space was settled by its own turn, and the later turns keep it so
      refine (swept_onEach _ works').keep _ (fun tp hp h hh hh' => ?_) settled
      rw [worked.confined.params]
      exact (first tp hp).shared ((Worked.mem_hostedParams worked.constraints).mp hh') hh
    · -- for the others the first turn was confined work, so they come to their turns as they were
      refine settled_onEach due _ works' (fun tp hp sk₁ same => ?_) ?_ ?_ tp mem
      · refine settles tp (List.mem_cons_of_mem _ hp) sk₁ ?_
        rw [same, worked.sketch]
      · exact later.imp fun both => both.of_entities (by rw [worked.sketch])
      · refine before.imp_right fun all tp hp => ?_
        exact (all tp (List.mem_cons_of_mem _ hp)).keep worked.confined
          fun h hh hh' => (first tp hp).shared hh hh'

end OnEach

/-- Work that ends with the first failure leaves the other spaces as they are. -/
theorem swept_untilFailure {act : SpaceAction α Unit} : ∀ {spaces : List (Space α)} (sk : Sketch α),
    (∀ sp ∈ spaces, ∀ sk₁, Worked sp sk₁ (act sp sk₁).2.1 (act sp sk₁).2.2) →
    Swept spaces sk (untilFailure act spaces sk).2.1 (untilFailure act spaces sk).2.2
  | [], sk, _ => .refl [] sk
  | sp :: rest, sk, works => by
    have worked := works sp List.mem_cons_self sk
    unfold untilFailure
    cases eq : act sp sk with
    | mk result changed =>
      rw [eq] at worked
      cases result with
      | error e => exact (Swept.refl rest _).cons worked
      | ok _ =>
        have later := swept_untilFailure changed.2 fun tp mem => works tp (List.mem_cons_of_mem _ mem)
        exact later.cons worked

/-- Work that never fails is done on every space. -/
theorem untilFailure_ok {act : SpaceAction α Unit} : ∀ {spaces : List (Space α)} (sk : Sketch α),
    (∀ sp ∈ spaces, ∀ sk₁, Worked sp sk₁ (act sp sk₁).2.1 (act sp sk₁).2.2) →
    (∀ sp ∈ spaces, ∀ sk₁, sk₁ = { sk with store := sk₁.store } → (act sp sk₁).1 = .ok ()) →
    untilFailure act spaces sk = (.ok (), (onEach act spaces sk).2)
  | [], sk, _, _ => rfl
  | sp :: rest, sk, works, succeeds => by
    have worked := works sp List.mem_cons_self sk
    have ok := succeeds sp List.mem_cons_self sk rfl
    have later := untilFailure_ok (act sp sk).2.2
      (fun tp mem => works tp (List.mem_cons_of_mem _ mem))
      fun tp mem sk₁ same => succeeds tp (List.mem_cons_of_mem _ mem) sk₁ (by
        rw [same, worked.sketch])
    rw [onEach_cons]
    unfold untilFailure
    cases eq : act sp sk with
    | mk result changed =>
      rw [eq] at ok later
      simp only at ok later
      subst ok
      simp only
      rw [later]

end SketchSolver.Session

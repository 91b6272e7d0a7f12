import SketchSolver.Proofs.Session.Turns

/-!
# Shared numbers

Every space numbers the parameters of the sketch anew when it is prepared, and all of
them write the same ids. They do not get in each other's way. A space meets what is
drawn before anything else, so a space whose constraints read drawn parameters alone
lists exactly these, in the order in which they are drawn (`eraseDups_met`). Entities
that are entered come after those that are there, so a drawn parameter keeps its
number from the first time that any space is prepared (`keeps_run`).

The order in which spaces are prepared and entities are entered is a list of turns,
and `lasting_of_admitted` says of each turn what it yields and what is left of that
in the end. Shapes are entered on any parameters, also on those of other entities. A
parameter that is shared is met where it occurs first, and is numbered once.

The invariant along the turns has two parts. `Carried` says that all constraints read
parameters of entities that are there, which is what makes the spaces alike: none of them
lists anything of its own. `Keeps` fixes a list of parameters and says that they are the
first that are drawn and have the numbers that their positions tell. Preparing any space
establishes it for all parameters that are drawn then (`PreparedOn.keeps`), and every later
turn keeps it (`keeps_apply`): preparing writes the same numbers again, making a parameter
writes none, and entering a shape draws after what is there.

Without the first part this fails. A space that hosts a constraint on an entity that is
gone lists parameters of its own, after the drawn ones, and a shape that is entered then
takes their numbers.
-/

namespace SketchSolver

variable {α : Type}

/-- What was met before is not met anew. -/
theorem eraseDups_append_of_subset {hs ks : List Handle} (sub : ∀ k ∈ ks, k ∈ hs) :
    (hs ++ ks).eraseDups = hs.eraseDups := by
  have none : ks.removeAll hs = [] := by
    unfold List.removeAll
    refine List.filter_eq_nil_iff.mpr fun k mem => ?_
    simp [sub k mem]
  rw [List.eraseDups_append, none, List.eraseDups_nil, List.append_nil]

/-- A new parameter is in no list, and neither was the blank one in its place. -/
theorem Store.id_add [Zero α] (s : Store α) (symbol : String) (value : α) (h : Handle) :
    (s.add symbol value).2.id h = s.id h := by
  unfold Store.add Store.id Store.get
  simp only [Array.getD_eq_getD_getElem?, Array.getElem?_push]
  split
  next last =>
    rw [Array.getElem?_eq_none (by omega)]
    rfl
  next => rfl

namespace Sketch

variable {sk : Sketch α} {c : Constraint}

/-- The constraint has as many parameters as its kind asks for, and all of them belong to entities of
it that the sketch has. -/
structure Carries (sk : Sketch α) (c : Constraint) : Prop where
  fits : c.Fits
  owned : ∀ h ∈ c.params, sk.Owned c h

/-- A sketch carries what is created on it. -/
theorem carries_of_create {kind : Kind} {ids : List EntityId} {sk' : Sketch α}
    (created : Constraint.create sk kind ids = .ok (c, sk')) : sk.Carries c := by
  have owned := fun h (mem : h ∈ c.params) => owned_of_create created mem
  obtain ⟨_, _, fits, _⟩ := Constraint.create_ok created
  exact ⟨fits, owned⟩

theorem Carries.of_entities {sk' : Sketch α} {new : List Entity} (carries : sk.Carries c)
    (entities : sk'.entities = sk.entities ++ new) : sk'.Carries c := by
  refine ⟨carries.fits, fun h mem => ?_⟩
  obtain ⟨e, he, owned⟩ := carries.owned h mem
  exact ⟨e, entities ▸ List.mem_append_left _ he, owned⟩

/-- The parameters of new entities come after the others. -/
theorem params_append {sk' : Sketch α} {new : List Entity}
    (entities : sk'.entities = sk.entities ++ new) :
    sk'.params = sk.params ++ new.flatMap (·.shape.params) := by
  unfold params
  rw [entities, List.flatMap_append]

variable [Zero α] {ps : List Handle}

/-- The given parameters are drawn first, and the k-th distinct one of them has the id k, counted from
one. -/
structure Keeps (ps : List Handle) (sk : Sketch α) : Prop where
  first : ∃ more, sk.params = ps ++ more
  number : ∀ (k : Nat) h, ps.eraseDups[k]? = some h → sk.store.id h = k + 1

/-- Two sketches that keep the same parameters number them alike. -/
theorem Keeps.id_eq {sk' : Sketch α} (keeps : Keeps ps sk) (keeps' : Keeps ps sk') {h : Handle}
    (mem : h ∈ ps) : sk'.store.id h = sk.store.id h := by
  obtain ⟨k, at'⟩ := List.mem_iff_getElem?.mp (List.mem_eraseDups.mpr mem)
  rw [keeps.number k h at', keeps'.number k h at']

end Sketch

/-- What is met first is numbered first. -/
theorem Numbered.id_getElem [Zero α] {l : ParamList} {s : Store α} {ps qs : List Handle} {h : Handle}
    {k : Nat} (numbered : Numbered l s) (list : l.toList = (ps ++ qs).eraseDups)
    (at' : ps.eraseDups[k]? = some h) : s.id h = k + 1 := by
  have place : l.toList[k]? = some h := by
    obtain ⟨bound, _⟩ := List.getElem?_eq_some_iff.mp at'
    rw [list, List.eraseDups_append, List.getElem?_append_left bound, at']
  obtain ⟨bound, found⟩ := Array.getElem?_eq_some_iff.mp (Array.getElem?_toList.symm.trans place)
  rw [← found]
  exact numbered k bound

namespace Space

variable [Zero α] {sp sp' : Space α} {sk sk' : Sketch α} {dragged : Option EntityId}

/-- The space lists the drawn parameters and nothing else. -/
def Lists (sp : Space α) (sk : Sketch α) : Prop := sp.params.toList = sk.params.eraseDups

omit [Zero α] in
/-- Constraints that the sketch carries have no parameters of their own to list. -/
theorem eraseDups_met (carried : ∀ c ∈ sp.constraints, sk.Carries c) :
    (sp.met sk).eraseDups = sk.params.eraseDups := by
  -- what the space meets are the drawn parameters, and then those of its constraints
  refine eraseDups_append_of_subset fun h mem => ?_
  obtain ⟨c, hc, hh⟩ := List.mem_flatMap.mp mem
  exact ((carried c hc).owned h hh).drawn

/-- What preparing a space for an entity of the sketch, if any, leaves. -/
structure PreparedOn (sp : Space α) (sk : Sketch α) (sp' : Space α) (sk' : Sketch α) : Prop where
  constraints : sp'.constraints.Perm sp.constraints
  entities : sk'.entities = sk.entities
  lists : sp'.Lists sk
  numbered : Numbered sp'.params sk'.store
  -- what the space has loaded is drawn
  needed : ∀ h ∈ sp'.problem.params.toList, h ∈ sk.params
  interactive : ∀ h ∈ sp'.interactive, h ∈ sk.params
  dragged : sp'.problem.dragged = sp'.interactive.map sk'.store.id

/-- A space that reads drawn parameters alone, and was built, lists what is drawn. -/
theorem Built.preparedOn {interactive : List Handle}
    (built : Built (sp.arranged dragged interactive) sk sp' sk')
    (carried : ∀ c ∈ sp.constraints, sk.Carries c) (drawn : ∀ h ∈ interactive, h ∈ sk.params) :
    PreparedOn sp sk sp' sk' := by
  have carried' : ∀ c ∈ (sp.arranged dragged interactive).constraints, sk.Carries c :=
    fun c hc => carried c (mem_sortConstraints.mp hc)
  have fits : ∀ c ∈ (sp.arranged dragged interactive).valid, c.Fits :=
    fun c hc => (carried' c (valid_sub hc)).fits
  refine ⟨?_, by rw [built.sketch], built.params.trans (eraseDups_met carried'), built.numbered,
    fun h mem => ?_, ?_, ?_⟩
  · rw [built.constraints]
    exact List.mergeSort_perm _ _
  · obtain ⟨c, hc, hh⟩ := (built.covered fits).needed h mem
    rw [built.valid] at hc
    exact ((carried' c (valid_sub hc)).owned h hh).drawn
  · rw [built.space]
    exact drawn
  · rw [Problem.dragged_of_load built.problem, built.space]

/-- **A space whose constraints are carried can be prepared for any entity of the sketch.** -/
theorem prepare_carried (carried : ∀ c ∈ sp.constraints, sk.Carries c)
    (live : ∀ id, dragged = some id → sk.contains id = true) :
    ∃ sp' sk', sp.prepare sk dragged true = (.ok (), sp', sk') ∧ PreparedOn sp sk sp' sk' := by
  have builds : ∀ interactive, (∀ h ∈ interactive, h ∈ sk.params) → ∃ sp' sk',
      (sp.arranged dragged interactive).build sk = (.ok (), sp', sk') ∧
        PreparedOn sp sk sp' sk' := by
    intro interactive drawn
    have fits : ∀ c ∈ (sp.arranged dragged interactive).valid, c.Fits :=
      fits_arranged fun c hc => (carried c hc).fits
    obtain ⟨sp', sk', eq, built⟩ := build_ok sk fits
    exact ⟨sp', sk', eq, built.preparedOn carried drawn⟩
  rw [prepare_eq_build sp fun id is => ⟨rfl, live id is⟩]
  exact builds (sk.dragParams dragged) fun h mem => Sketch.mem_params_of_dragParams mem

theorem PreparedOn.params (prepared : PreparedOn sp sk sp' sk') : sk'.params = sk.params := by
  unfold Sketch.params
  rw [prepared.entities]

/-- Preparing a space numbers what is drawn first as before. -/
theorem PreparedOn.keeps {ps more : List Handle} (prepared : PreparedOn sp sk sp' sk')
    (first : sk.params = ps ++ more) : sk'.Keeps ps := by
  refine ⟨⟨more, prepared.params.trans first⟩, fun k h at' => ?_⟩
  have list : sp'.params.toList = (ps ++ more).eraseDups := first ▸ prepared.lists
  exact prepared.numbered.id_getElem list at'

end Space

/-! ## Turns -/

/-- What is done in between solves: a space is prepared, for an entity that is dragged or for none; a
parameter is made; or a shape is entered, with its points. -/
inductive Turn (α : Type) where
  | prepare (index : Nat) (dragged : Option EntityId)
  | create (symbol : String) (value : α)
  | enter (shape : Shape)

namespace Session

variable [Zero α]

/-- Prepares the space at an index anew. -/
def prepareAt (s : Session α) (index : Nat) (dragged : Option EntityId) :
    Except (Failure α) Unit × Session α :=
  match s.space index with
  | .error e => (.error e, s)
  | .ok sp =>
    let (result, sp, sketch) := sp.prepare s.sketch dragged true
    (result, { s with spaces := s.spaces.set index sp, sketch })

/-- The entities of all constraints are on the sketch. -/
def Carried (s : Session α) : Prop := ∀ sp ∈ s.spaces, ∀ c ∈ sp.constraints, s.sketch.Carries c

/-- The space at an index lists the drawn parameters. -/
def ListsAt (s : Session α) (index : Nat) : Prop :=
  ∃ sp, s.spaces[index]? = some sp ∧ sp.Lists s.sketch

end Session

namespace Turn

variable [Zero α] {s : Session α} {turn : Turn α} {ps : List Handle} {index : Nat}
variable {dragged : Option EntityId}

/-- The session after a turn. -/
def apply (turn : Turn α) (s : Session α) : Session α :=
  match turn with
  | prepare index dragged => (s.prepareAt index dragged).2
  | create symbol value =>
    { s with sketch := { s.sketch with store := (s.sketch.store.add symbol value).2 } }
  | enter shape => { s with sketch := (s.sketch.enter shape).2 }

/-- A space that there is may be prepared, for an entity that there is. -/
def Admissible (turn : Turn α) (s : Session α) : Prop :=
  match turn with
  | prepare index dragged => index < s.spaces.length ∧
      ∀ id, dragged = some id → s.sketch.contains id = true
  | _ => True

/-- The session after some turns. -/
def run (turns : List (Turn α)) (s : Session α) : Session α :=
  turns.foldl (fun s turn => turn.apply s) s

/-- All turns are admissible when they are due. -/
def Admitted : List (Turn α) → Session α → Prop
  | [], _ => True
  | turn :: turns, s => turn.Admissible s ∧ Admitted turns (turn.apply s)

/-- Turns that are admitted may be cut anywhere. -/
theorem admitted_append : ∀ {turns later : List (Turn α)} {s : Session α},
    Admitted (turns ++ later) s → Admitted turns s ∧ Admitted later (run turns s)
  | [], _, _, admitted => ⟨trivial, admitted⟩
  | _ :: _, _, _, ⟨first, rest⟩ => by
    obtain ⟨before, after⟩ := admitted_append rest
    exact ⟨⟨first, before⟩, after⟩

/-- What preparing one space leaves: the others are as they were. -/
theorem prepareAt_spec (carried : s.Carried) (admissible : (prepare index dragged).Admissible s) :
    ∃ sp sp' sk', s.spaces[index]? = some sp ∧ Space.PreparedOn sp s.sketch sp' sk' ∧
      s.prepareAt index dragged =
        (.ok (), { s with spaces := s.spaces.set index sp', sketch := sk' }) := by
  obtain ⟨bound, live⟩ := admissible
  have found := List.getElem?_eq_getElem bound
  obtain ⟨sp', sk', eq, prepared⟩ := Space.prepare_carried
    (carried _ (List.getElem_mem bound)) live
  refine ⟨_, sp', sk', found, prepared, ?_⟩
  unfold Session.prepareAt Session.space
  rw [found]
  simp only
  rw [eq]

/-! ## One turn -/

/-- A turn takes no entity off, and only entering brings new ones. -/
theorem entities_apply (carried : s.Carried) (admissible : turn.Admissible s) :
    ∃ new, (turn.apply s).sketch.entities = s.sketch.entities ++ new ∧
      ((∀ shape, turn ≠ .enter shape) → new = []) := by
  cases turn with
  | prepare index dragged =>
    obtain ⟨_, _, _, _, prepared, eq⟩ := prepareAt_spec carried admissible
    refine ⟨[], ?_, fun _ => rfl⟩
    unfold apply
    simp only
    rw [eq, prepared.entities, List.append_nil]
  | create symbol value => exact ⟨[], (List.append_nil _).symm, fun _ => rfl⟩
  | enter shape =>
    obtain ⟨new, entities, _⟩ := s.sketch.entities_enter shape
    exact ⟨new, entities, fun other => absurd rfl (other shape)⟩

/-- Constraints stay on entities that are there. -/
theorem carried_apply (carried : s.Carried) (admissible : turn.Admissible s) :
    (turn.apply s).Carried := by
  obtain ⟨new, entities, _⟩ := entities_apply carried admissible
  intro sp mem c hc
  refine .of_entities ?_ entities
  cases turn with
  | prepare index dragged =>
    obtain ⟨tp, tp', _, found, prepared, eq⟩ := prepareAt_spec carried admissible
    unfold apply at mem
    simp only at mem
    rw [eq] at mem
    rcases List.mem_or_eq_of_mem_set mem with old | rfl
    · exact carried sp old c hc
    · exact carried tp (List.mem_of_getElem? found) c (prepared.constraints.mem_iff.mp hc)
  | create symbol value => exact carried sp mem c hc
  | enter shape => exact carried sp mem c hc

/-- **A turn keeps the numbers of what is drawn first.** -/
theorem keeps_apply (carried : s.Carried) (admissible : turn.Admissible s)
    (keeps : s.sketch.Keeps ps) : (turn.apply s).sketch.Keeps ps := by
  obtain ⟨more, first⟩ := keeps.first
  obtain ⟨new, entities, _⟩ := entities_apply carried admissible
  -- new entities are drawn behind those that are there
  have first' : ∃ more, (turn.apply s).sketch.params = ps ++ more :=
    ⟨_, by rw [Sketch.params_append entities, first, List.append_assoc]⟩
  cases turn with
  | prepare index dragged =>
    obtain ⟨_, _, _, _, prepared, eq⟩ := prepareAt_spec carried admissible
    unfold apply
    simp only
    rw [eq]
    exact prepared.keeps first
  | create symbol value =>
    refine ⟨first', fun k h at' => ?_⟩
    exact (Store.id_add s.sketch.store symbol value h).trans (keeps.number k h at')
  | enter shape => exact ⟨first', keeps.number⟩

/-- While nothing is entered, a space that lists the drawn parameters does so after every turn. -/
theorem listsAt_apply (carried : s.Carried) (admissible : turn.Admissible s)
    (other : ∀ shape, turn ≠ .enter shape) (lists : s.ListsAt index) :
    (turn.apply s).ListsAt index := by
  obtain ⟨sp, at', listed⟩ := lists
  obtain ⟨new, entities, none⟩ := entities_apply carried admissible
  rw [none other] at entities
  have params : (turn.apply s).sketch.params = s.sketch.params := by
    rw [Sketch.params_append entities, List.flatMap_nil, List.append_nil]
  unfold Session.ListsAt Space.Lists
  rw [params]
  cases turn with
  | prepare turned dragged =>
    obtain ⟨tp, tp', _, found, prepared, eq⟩ := prepareAt_spec carried admissible
    unfold apply
    simp only
    rw [eq]
    by_cases same : turned = index
    · -- prepared once more, the space lists the same anew
      subst same
      exact ⟨tp', List.getElem?_set_self admissible.1, prepared.lists⟩
    · exact ⟨sp, (List.getElem?_set_ne same).trans at', listed⟩
  | create symbol value => exact ⟨sp, at', listed⟩
  | enter shape => exact absurd rfl (other shape)

/-! ## All turns -/

/-- What every turn of a run keeps, the run keeps. -/
theorem run_induction {P : Session α → Prop} : ∀ {turns : List (Turn α)} {s : Session α},
    (∀ turn ∈ turns, ∀ t : Session α, t.Carried → turn.Admissible t → P t → P (turn.apply t)) →
    s.Carried → Admitted turns s → P s → (run turns s).Carried ∧ P (run turns s)
  | [], _, _, carried, _, holds => ⟨carried, holds⟩
  | turn :: turns, s, step, carried, ⟨admissible, later⟩, holds => by
    have carried' := carried_apply carried admissible
    have holds' := step turn List.mem_cons_self s carried admissible holds
    exact run_induction (s := turn.apply s)
      (fun next mem => step next (List.mem_cons_of_mem _ mem)) carried' later holds'

/-- After any turns all constraints are on entities that are there. -/
theorem carried_run {turns : List (Turn α)} (carried : s.Carried) (admitted : Admitted turns s) :
    (run turns s).Carried :=
  (run_induction (P := fun _ => True) (fun _ _ _ _ _ _ => trivial) carried admitted trivial).1

/-- What was numbered keeps its number through all turns. -/
theorem keeps_run {turns : List (Turn α)} (carried : s.Carried) (admitted : Admitted turns s)
    (keeps : s.sketch.Keeps ps) : (run turns s).sketch.Keeps ps :=
  (run_induction (P := fun t => t.sketch.Keeps ps) (fun _ _ _ => keeps_apply) carried admitted
    keeps).2

/-- A space lists what is drawn as long as nothing is entered. -/
theorem listsAt_run {turns : List (Turn α)} (carried : s.Carried) (admitted : Admitted turns s)
    (fixed : ∀ shape, .enter shape ∉ turns) (lists : s.ListsAt index) :
    (run turns s).ListsAt index := by
  refine (run_induction (P := fun t => t.ListsAt index) (fun turn mem t carried' admissible => ?_)
    carried admitted lists).2
  exact listsAt_apply carried' admissible fun shape is => fixed shape (is ▸ mem)

/-- What preparing a space yields, and what later turns leave of it. -/
structure Lasting (s : Session α) (index : Nat) (dragged : Option EntityId)
    (later : List (Turn α)) : Prop where
  succeeds : (s.prepareAt index dragged).1 = .ok ()
  /-- The k-th distinct parameter that is drawn has the id k, now and in the end. -/
  numbers : ∀ (k : Nat) h, s.sketch.params.eraseDups[k]? = some h →
    (s.prepareAt index dragged).2.sketch.store.id h = k + 1 ∧
      (run later (s.prepareAt index dragged).2).sketch.store.id h = k + 1
  /-- As long as nothing is entered, the space lists what is drawn. -/
  lists : (∀ shape, .enter shape ∉ later) →
    (run later (s.prepareAt index dragged).2).ListsAt index
  /-- Whatever the space has loaded keeps its id. -/
  loaded : ∃ sp, (s.prepareAt index dragged).2.spaces[index]? = some sp ∧
    (∀ h, h ∈ sp.params.toList ∨ h ∈ sp.problem.params.toList ∨ h ∈ sp.interactive →
      (run later (s.prepareAt index dragged).2).sketch.store.id h =
        (s.prepareAt index dragged).2.sketch.store.id h) ∧
    Numbered sp.params (run later (s.prepareAt index dragged).2).sketch.store ∧
    sp.problem.dragged =
      sp.interactive.map (run later (s.prepareAt index dragged).2).sketch.store.id

/-- **Spaces agree on the ids of parameters**, in whatever order they are prepared and however often,
and although entities are entered in between. -/
theorem lasting_of_admitted {turns before later : List (Turn α)} (carried : s.Carried)
    (admitted : Admitted turns s) (split : turns = before ++ .prepare index dragged :: later) :
    Lasting (run before s) index dragged later := by
  rw [split] at admitted
  obtain ⟨before', admissible, later'⟩ := admitted_append admitted
  have carried₁ := carried_run carried before'
  have carried₂ := carried_apply carried₁ admissible
  obtain ⟨sp, sp', sk', found, prepared, eq⟩ := prepareAt_spec carried₁ admissible
  unfold apply at later' carried₂
  simp only at later' carried₂
  rw [eq] at later' carried₂
  have bound : index < (run before s).spaces.length := admissible.1
  -- all that is drawn is numbered by now, and later turns keep that
  have keeps := prepared.keeps (List.append_nil _).symm
  have kept := keeps_run carried₂ later' keeps
  have at' : ((run before s).spaces.set index sp')[index]? = some sp' :=
    List.getElem?_set_self bound
  have stays : ∀ h ∈ (run before s).sketch.params, _ := fun h mem => keeps.id_eq kept mem
  have listed : ∀ h ∈ sp'.params.toList, h ∈ (run before s).sketch.params := fun h mem =>
    List.mem_eraseDups.mp (prepared.lists ▸ mem)
  refine ⟨?_, ?_, ?_, ?_⟩
  all_goals rw [eq]
  · exact fun k h place => ⟨keeps.number k h place, kept.number k h place⟩
  · intro none
    refine listsAt_run carried₂ later' none ⟨sp', at', ?_⟩
    unfold Space.Lists
    rw [prepared.params]
    exact prepared.lists
  · refine ⟨sp', at', ?_, prepared.numbered.congr fun h mem => stays h (listed h mem), ?_⟩
    · rintro h (mem | mem | mem)
      · exact stays h (listed h mem)
      · exact stays h (prepared.needed h mem)
      · exact stays h (prepared.interactive h mem)
    · rw [prepared.dragged]
      exact List.map_congr_left fun h mem => (stays h (prepared.interactive h mem)).symm

/-- Two spaces over a segment and a point. The first one keeps the segment level, the second one an end
of it at the point. -/
def twoSpaces : Session Float where
  sketch := (Space.oneSegment.addPoint 1 5).2
  spaces := [{ Space.create 0 Settings.standard with constraints := [Operation.levelDemand] },
    { Space.create 1 Settings.standard with constraints := [Session.touchingDemand] }]
  settings := Settings.standard

/-- A circle around the point is entered after the second space was prepared, and then the first space
is prepared for the point. -/
theorem lasting_twoSpaces : twoSpaces.Carried ∧
    Admitted [.prepare 1 none, .create "r" 2, .enter (.circle ⟨⟨4⟩, ⟨5⟩⟩ ⟨6⟩),
      .prepare 0 (some ⟨4⟩)] twoSpaces ∧
    Lasting twoSpaces 1 none
      [.create "r" 2, .enter (.circle ⟨⟨4⟩, ⟨5⟩⟩ ⟨6⟩), .prepare 0 (some ⟨4⟩)] := by
  have carried : twoSpaces.Carried := by
    have all : ∀ sp ∈ twoSpaces.spaces, ∀ c ∈ sp.constraints, c.Fits ∧
        ∀ h ∈ c.params, twoSpaces.sketch.Owned c h := by
      unfold Constraint.Fits Sketch.Owned
      decide
    exact fun sp mem c hc => ⟨(all sp mem c hc).1, (all sp mem c hc).2⟩
  have admitted : Admitted [.prepare 1 none, .create "r" 2, .enter (.circle ⟨⟨4⟩, ⟨5⟩⟩ ⟨6⟩),
      .prepare 0 (some ⟨4⟩)] twoSpaces := by
    refine ⟨⟨by decide, fun id is => by simp at is⟩, trivial, trivial, ⟨?_, ?_⟩, trivial⟩
    · decide +kernel
    · rintro id ⟨⟩
      decide +kernel
  exact ⟨carried, admitted, lasting_of_admitted carried admitted (List.nil_append _).symm⟩

end Turn

end SketchSolver

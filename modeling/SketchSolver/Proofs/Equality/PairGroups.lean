import SketchSolver.Equality.Groups
import SketchSolver.Proofs.AscendingSets
import SketchSolver.Proofs.Equality.ForestRoots

/-!
# The groups that pairs of ids form

`EqualGroup.ofPairs` joins the ids of every pair in a forest and reads the groups off its
roots. The statements here say what a solve relies on: both ids of a pair are in one group
(`ofPairs_cover`), no id is in two groups (`ofPairs_disjoint`), and a group is represented by
one of its members (`representative_mem`).

`Joined pairs f` is the invariant that joining pair after pair keeps. An id is entered exactly
when a pair mentions it; the ids of a pair have one root; the root of what was entered was
entered itself, so that it has a group under it; and an id that was not entered is its own
root. The last two are about the forest alone, but hold only because nothing is joined that
was not entered before.

A class is read off by comparing roots, once for each root among the entered ids. Looking up a
root leaves the forest with shorter ways, and here it is asked of the same forest every time;
since the roots do not change by it, this makes no difference.

That the ids of one group are related by the pairs, and not only the other way around, is not
needed in order to solve. It is proved apart, for those who want to know that the groups are
no larger than they have to be.
-/

namespace SketchSolver.EqualGroup

open Forest (Sound root_insert sound_insert root_union root_root)

/-! ## The forest of pairs -/

/-- The forest `f` has entered the ids of `pairs` and joined the two of each. -/
structure Joined (pairs : List (Int × Int)) (f : Forest) : Prop where
  sound : Sound f
  mem : ∀ x, x ∈ f.members ↔ ∃ pair ∈ pairs, x = pair.1 ∨ x = pair.2
  same : ∀ pair ∈ pairs, f.root pair.1 = f.root pair.2
  home : ∀ x ∈ f.members, f.root x ∈ f.members
  alone : ∀ x, x ∉ f.members → f.root x = x

theorem joined_nil : Joined [] {} :=
  ⟨Forest.sound_empty, fun x => by simp, fun _ h => by simp at h, fun _ h => by simp at h,
    fun _ _ => Forest.root_eq_of_leads Forest.sound_empty (.root rfl)⟩

/-- Joining one more pair. -/
theorem Joined.step {pairs : List (Int × Int)} {f : Forest} (h : Joined pairs f) (a b : Int) :
    Joined (pairs ++ [(a, b)]) (((f.insert a).insert b).union a b) := by
  have soundA := sound_insert h.sound a
  have soundB := sound_insert soundA b
  -- entering ids changes no root, so all roots are compared in the forest from before
  have root : ∀ x, ((f.insert a).insert b).root x = f.root x := fun x =>
    (root_insert soundA b x).trans (root_insert h.sound a x)
  have mem : ∀ x, x ∈ ((f.insert a).insert b).members ↔ x = b ∨ x = a ∨ x ∈ f.members :=
    fun x => by
      show x ∈ Ascending.insert b (Ascending.insert a f.members) ↔ _
      rw [Ascending.mem_insert, Ascending.mem_insert]
  have home : ∀ x ∈ ((f.insert a).insert b).members,
      f.root x ∈ ((f.insert a).insert b).members := by
    intro x hx
    by_cases old : x ∈ f.members
    · exact (mem _).mpr (Or.inr (Or.inr (h.home x old)))
    · rw [h.alone x old]
      exact hx
  have memA := (mem a).mpr (Or.inr (Or.inl rfl))
  have memB := (mem b).mpr (Or.inl rfl)
  obtain ⟨sound, members, w, hw, roots⟩ := root_union soundB a b
  simp only [root] at roots hw
  refine ⟨sound, fun x => ?_, fun pair hpair => ?_, fun x hx => ?_, fun x hx => ?_⟩
  · rw [members, mem, h.mem]
    simp only [List.mem_append, List.mem_singleton]
    constructor
    · rintro (rfl | rfl | ⟨pair, hp, hx⟩)
      · exact ⟨(a, x), Or.inr rfl, Or.inr rfl⟩
      · exact ⟨(x, b), Or.inr rfl, Or.inl rfl⟩
      · exact ⟨pair, Or.inl hp, hx⟩
    · rintro ⟨pair, hp | rfl, hx⟩
      · exact Or.inr (Or.inr ⟨pair, hp, hx⟩)
      · rcases hx with rfl | rfl
        · exact Or.inr (Or.inl rfl)
        · exact Or.inl rfl
  · rcases List.mem_append.mp hpair with hp | hp
    · rw [roots, roots, h.same pair hp]
    · obtain rfl : pair = (a, b) := List.mem_singleton.mp hp
      rw [roots, roots, if_pos (Or.inl rfl), if_pos (Or.inr rfl)]
  · -- the common root is one of the two before, and these are members
    rw [members] at hx ⊢
    rw [roots]
    split
    next =>
      rcases hw with rfl | rfl
      · exact home a memA
      · exact home b memB
    next => exact home x hx
  · rw [members] at hx
    -- what was not entered was its own root, and the union does not come near it
    have own : f.root x = x := h.alone x fun old => hx ((mem x).mpr (Or.inr (Or.inr old)))
    rw [roots, own, if_neg]
    rintro (eq | eq)
    · exact hx (eq ▸ home a memA)
    · exact hx (eq ▸ home b memB)

/-- Joining pair after pair. -/
theorem joined_foldl (pairs : List (Int × Int)) : ∀ (done : List (Int × Int)) (f : Forest),
    Joined done f →
    Joined (done ++ pairs)
      (pairs.foldl (fun f (a, b) => ((f.insert a).insert b).union a b) f) := by
  induction pairs with
  | nil =>
    intro done f h
    rw [List.append_nil]
    exact h
  | cons pair pairs ih =>
    intro done f h
    obtain ⟨a, b⟩ := pair
    rw [List.foldl_cons, List.append_cons]
    exact ih (done ++ [(a, b)]) _ (h.step a b)

/-- The forest of some pairs has joined them. -/
theorem joined_forest (pairs : List (Int × Int)) : Joined pairs (forest pairs) :=
  joined_foldl pairs [] {} joined_nil

/-! ## The groups -/

/-- The classes are the members with one root each. -/
theorem mem_classes {f : Forest} {r : Int} {members : List Int} :
    (r, members) ∈ f.classes ↔
      r ∈ f.members ∧ f.root r = r ∧ members = f.members.filter fun x => f.root x == r := by
  unfold Forest.classes
  simp only [List.mem_map, List.mem_filter, Prod.mk.injEq, List.filter_map, List.map_map,
    Function.comp_def, List.map_id']
  constructor
  · rintro ⟨x, ⟨mem, top⟩, rfl, rfl⟩
    exact ⟨mem, (eq_of_beq top).symm, rfl⟩
  · rintro ⟨mem, top, rfl⟩
    exact ⟨r, ⟨mem, beq_iff_eq.mpr top.symm⟩, rfl, rfl⟩

variable {dragged : List Int} {pairs : List (Int × Int)} {g g' : EqualGroup}

/-- A group consists of the ids with one root. -/
theorem mem_ofPairs (h : g ∈ ofPairs dragged pairs) :
    ∃ r ∈ (forest pairs).members, (forest pairs).root r = r ∧
      g.members = ((forest pairs).members.filter fun x => (forest pairs).root x == r) ∧
      g = ofClass dragged r g.members := by
  unfold ofPairs at h
  obtain ⟨⟨r, members⟩, hc, rfl⟩ := List.mem_map.mp h
  obtain ⟨mem, top, eq⟩ := mem_classes.mp hc
  exact ⟨r, mem, top, eq, rfl⟩

/-- Both ids of a pair are in one group. -/
theorem ofPairs_cover (dragged : List Int) {pair : Int × Int} (h : pair ∈ pairs) :
    ∃ g ∈ ofPairs dragged pairs, pair.1 ∈ g.members ∧ pair.2 ∈ g.members := by
  have joined := joined_forest pairs
  have mem₁ := (joined.mem pair.1).mpr ⟨pair, h, Or.inl rfl⟩
  have mem₂ := (joined.mem pair.2).mpr ⟨pair, h, Or.inr rfl⟩
  refine ⟨_, List.mem_map.mpr ⟨_, mem_classes.mpr
    ⟨joined.home pair.1 mem₁, root_root joined.sound pair.1, rfl⟩, rfl⟩, ?_, ?_⟩
  · exact List.mem_filter.mpr ⟨mem₁, beq_self_eq_true _⟩
  · exact List.mem_filter.mpr ⟨mem₂, beq_iff_eq.mpr (joined.same pair h).symm⟩

/-- No id is in two groups. -/
theorem ofPairs_disjoint (h : g ∈ ofPairs dragged pairs) (h' : g' ∈ ofPairs dragged pairs)
    {x : Int} (hx : x ∈ g.members) (hx' : x ∈ g'.members) : g = g' := by
  obtain ⟨r, _, _, members, eq⟩ := mem_ofPairs h
  obtain ⟨r', _, _, members', eq'⟩ := mem_ofPairs h'
  rw [members] at hx
  rw [members'] at hx'
  have root : r = r' :=
    (eq_of_beq (List.mem_filter.mp hx).2).symm.trans (eq_of_beq (List.mem_filter.mp hx').2)
  subst root
  rw [eq, eq', members, members']

/-- A group is represented by one of its members. -/
theorem representative_mem (h : g ∈ ofPairs dragged pairs) : g.representative ∈ g.members := by
  obtain ⟨r, mem, top, members, eq⟩ := mem_ofPairs h
  have root_mem : r ∈ g.members := by
    rw [members]
    exact List.mem_filter.mpr ⟨mem, beq_iff_eq.mpr top⟩
  rw [eq]
  unfold ofClass
  simp only
  split
  next => exact root_mem
  next =>
    cases found : g.members.find? (· ∈ dragged) with
    | none => exact root_mem
    | some x => exact List.mem_of_find?_eq_some found

/-- The members of a group are ids of pairs. -/
theorem mem_of_mem_members (h : g ∈ ofPairs dragged pairs) {x : Int} (hx : x ∈ g.members) :
    ∃ pair ∈ pairs, x = pair.1 ∨ x = pair.2 := by
  obtain ⟨r, _, _, members, _⟩ := mem_ofPairs h
  rw [members] at hx
  exact ((joined_forest pairs).mem x).mp (List.mem_filter.mp hx).1

end SketchSolver.EqualGroup

import SketchSolver.Equality.Forest

/-!
# Roots in a forest of linked ids

`Leads f p r` says that the links above `p` end at the root `r`. It is the specification of
`Forest.find`, and knows nothing of fuel or of shorter ways.

What makes the links end is a rank that grows with every link (`Ranked`). It is bounded by the
number of links, so a climb never runs out of fuel; and since every link to a grandparent
still goes to a higher rank, shortening the ways keeps it. The main statements are `find_spec`
(a find yields the root, and changes no root) and `root_union` (a union makes two classes one,
and leaves the others as they were).

The rank is not part of the forest, and need not be: `Sound` says that there is one. A ranking
survives a link to a higher rank as it is (`Ranked.link_higher`), and this covers all that a
look-up does. For a union a new one is chosen (`Ranked.link_roots`), with a rank for the upper
root above all ranks below it; since the forest has one link more then, the bound grows with
it.

A look-up changes links while it follows them, so that the ways of other ids change as well.
`Shortened f g` says in which respect this does not matter: every id leads to the same root as
before. It composes over the steps of a climb, and after it the root of an id is a property
that one can speak about without saying when it was looked up (`Shortened.root`).

Links are kept in an association list with at most one entry for an id. `lookup` after `link`
is the only thing that is needed to know about it.
-/

namespace SketchSolver.Forest

/-- The links above `p` end at `r`. -/
inductive Leads (f : Forest) : Int → Int → Prop where
  | root {p : Int} (top : f.parent p = p) : Leads f p p
  | up {p r : Int} (below : f.parent p ≠ p) (above : Leads f (f.parent p) r) : Leads f p r

namespace Leads

variable {f : Forest} {p r r' : Int}

theorem top (h : Leads f p r) : f.parent r = r := by
  induction h with
  | root top => exact top
  | up below above ih => exact ih

theorem unique (h : Leads f p r) (h' : Leads f p r') : r = r' := by
  induction h with
  | root top =>
    cases h' with
    | root => rfl
    | up below => exact absurd top below
  | up below above ih =>
    cases h' with
    | root top => exact absurd top below
    | up _ above' => exact ih above'

/-- What is above an id leads to the same root. -/
theorem parent (h : Leads f p r) : Leads f (f.parent p) r := by
  cases h with
  | root top =>
    rw [top]
    exact .root top
  | up _ above => exact above

end Leads

/-! ## Links -/

section Links

variable {β : Type} {p x : Int} {links : List (Int × β)}

theorem lookup_filter_ne (ne : x ≠ p) :
    (links.filter fun l => l.1 != p).lookup x = links.lookup x := by
  induction links with
  | nil => rfl
  | cons l ls ih =>
    obtain ⟨k, v⟩ := l
    by_cases hk : k = p
    · subst hk
      rw [List.filter_cons_of_neg (by simp), List.lookup_cons, ih,
        show (x == k) = false from by simpa using ne]
    · rw [List.filter_cons_of_pos (by simpa using hk), List.lookup_cons, List.lookup_cons, ih]

theorem lookup_eq_none (absent : p ∉ links.map (·.1)) : links.lookup p = none := by
  rw [List.lookup_eq_none_iff]
  intro l hl
  have : p ≠ l.1 := fun e => absent (e ▸ List.mem_map_of_mem hl)
  simpa using this

/-- There is nothing to leave out where there is no entry. -/
theorem filter_ne_of_absent (absent : p ∉ links.map (·.1)) :
    (links.filter fun l => l.1 != p) = links := by
  rw [List.filter_eq_self]
  intro l hl
  have : l.1 ≠ p := fun e => absent (e ▸ List.mem_map_of_mem hl)
  simpa using this

/-- With one link for an id at most, taking out the link of an id takes out one. -/
theorem length_filter_ne (nodup : (links.map (·.1)).Nodup) (present : p ∈ links.map (·.1)) :
    (links.filter fun l => l.1 != p).length + 1 = links.length := by
  induction links with
  | nil => simp at present
  | cons l ls ih =>
    rw [List.map_cons, List.nodup_cons] at nodup
    by_cases hl : l.1 = p
    · rw [List.filter_cons_of_neg (by simpa using hl),
        filter_ne_of_absent (hl ▸ nodup.1), List.length_cons]
    · rw [List.map_cons, List.mem_cons] at present
      have rest := ih nodup.2 (present.resolve_left fun e => hl e.symm)
      rw [List.filter_cons_of_pos (by simpa using hl), List.length_cons, List.length_cons, rest]

end Links

/-- A link determines the id above one id, and leaves all others. -/
theorem parent_link (f : Forest) (p q x : Int) :
    (f.link p q).parent x = if x = p then q else f.parent x := by
  unfold parent link
  rw [List.lookup_cons]
  split
  next eq => rw [if_pos (by simpa using eq)]; rfl
  next ne =>
    have ne : x ≠ p := by simpa using ne
    rw [if_neg ne, lookup_filter_ne ne]

/-- The id that was linked has the new one above it. -/
theorem parent_link_self (f : Forest) (p q : Int) : (f.link p q).parent p = q := by
  rw [parent_link, if_pos rfl]

/-- Any other id has the one that it had. -/
theorem parent_link_ne (f : Forest) {p x : Int} (ne : x ≠ p) (q : Int) :
    (f.link p q).parent x = f.parent x := by
  rw [parent_link, if_neg ne]

/-! ## Ranks -/

/-- Every link goes to a higher rank, and no rank exceeds the number of links. -/
structure Ranked (f : Forest) (rank : Int → Nat) : Prop where
  keys : (f.links.map (·.1)).Nodup
  proper : ∀ l ∈ f.links, l.2 ≠ l.1
  bound : ∀ p, rank p ≤ f.links.length
  up : ∀ p, f.parent p ≠ p → rank p < rank (f.parent p)

/-- The links of the forest have no cycle. -/
def Sound (f : Forest) : Prop := ∃ rank, Ranked f rank

theorem sound_empty : Sound {} :=
  ⟨fun _ => 0, List.Pairwise.nil, fun _ h => by simp at h, fun _ => Nat.le_refl 0,
    fun p ne => absurd rfl ne⟩

namespace Ranked

variable {f : Forest} {rank : Int → Nat} {p q : Int}

/-- An id below another one has a link. -/
theorem mem_keys (below : f.parent p ≠ p) : p ∈ f.links.map (·.1) := by
  apply Decidable.byContradiction
  intro absent
  apply below
  unfold parent
  rw [lookup_eq_none absent]
  rfl

/-- A root has no link. -/
theorem root_not_mem_keys (h : Ranked f rank) (top : f.parent p = p) :
    p ∉ f.links.map (·.1) := by
  intro present
  cases found : f.links.lookup p with
  | none =>
    rw [List.lookup_eq_none_iff] at found
    obtain ⟨l, hl, eq⟩ := List.mem_map.mp present
    have := found l hl
    simp [eq] at this
  | some q =>
    have eq : q = p := by
      unfold parent at top
      rw [found] at top
      exact top
    obtain ⟨before, after, links, _⟩ := List.lookup_eq_some_iff.mp found
    exact h.proper (p, q) (by rw [links]; simp) eq

/-- A link replaces the one that the id had. -/
theorem keys_link (h : Ranked f rank) : ((f.link p q).links.map (·.1)).Nodup := by
  unfold link
  rw [List.map_cons, List.nodup_cons]
  refine ⟨fun mem => ?_, h.keys.sublist (List.filter_sublist.map _)⟩
  obtain ⟨l, hl, eq⟩ := List.mem_map.mp mem
  have := (List.mem_filter.mp hl).2
  simp at this
  exact this eq

theorem proper_link (h : Ranked f rank) (ne : q ≠ p) : ∀ l ∈ (f.link p q).links, l.2 ≠ l.1 := by
  unfold link
  intro l hl
  rcases List.mem_cons.mp hl with rfl | hl
  · exact ne
  · exact h.proper l (List.mem_filter.mp hl).1

theorem length_link_of_below (h : Ranked f rank) (below : f.parent p ≠ p) :
    (f.link p q).links.length = f.links.length := by
  unfold link
  rw [List.length_cons, length_filter_ne h.keys (mem_keys below)]

theorem length_link_of_root (h : Ranked f rank) (top : f.parent p = p) :
    (f.link p q).links.length = f.links.length + 1 := by
  unfold link
  rw [List.length_cons, filter_ne_of_absent (h.root_not_mem_keys top)]

/-- Linking an id that is no root to a higher rank keeps all ranks. -/
theorem link_higher (h : Ranked f rank) (below : f.parent p ≠ p) (higher : rank p < rank q) :
    Ranked (f.link p q) rank := by
  refine ⟨h.keys_link, h.proper_link fun e => ?_, fun x => ?_, fun x hx => ?_⟩
  · rw [e] at higher
    exact Nat.lt_irrefl _ higher
  · rw [h.length_link_of_below below]
    exact h.bound x
  · by_cases hxp : x = p
    · rw [hxp, parent_link_self]
      exact higher
    · rw [parent_link_ne f hxp] at hx ⊢
      exact h.up x hx

/-- Linking a root below another root raises the rank of that one above all. -/
theorem link_roots (h : Ranked f rank) (top : f.parent p = p) (top' : f.parent q = q)
    (ne : q ≠ p) : Ranked (f.link p q) fun x => if x = q then f.links.length + 1 else rank x := by
  refine ⟨h.keys_link, h.proper_link ne, fun x => ?_, fun x hx => ?_⟩
  · rw [h.length_link_of_root top]
    split
    next => exact Nat.le_refl _
    next => exact Nat.le_succ_of_le (h.bound x)
  · by_cases hxp : x = p
    · -- the new link is the only one that uses the raised rank from below
      subst hxp
      rw [parent_link_self, if_neg ne.symm, if_pos rfl]
      exact Nat.lt_succ_of_le (h.bound x)
    · rw [parent_link_ne f hxp] at hx ⊢
      have hxq : x ≠ q := fun e => hx (e ▸ top')
      rw [if_neg hxq]
      split
      next => exact Nat.lt_succ_of_le (h.bound x)
      next => exact h.up x hx

/-- The links above every id end. -/
theorem leads (h : Ranked f rank) (p : Int) : ∃ r, Leads f p r := by
  by_cases top : f.parent p = p
  · exact ⟨p, .root top⟩
  · have := h.up p top
    have := h.bound (f.parent p)
    obtain ⟨r, above⟩ := leads h (f.parent p)
    exact ⟨r, .up top above⟩
termination_by f.links.length - rank p

end Ranked

/-! ## Shorter ways -/

/-- Linking an id to the one two steps above it changes no root. -/
theorem Leads.halve {f : Forest} {p : Int} (below : f.parent p ≠ p)
    (grand : f.parent (f.parent p) ≠ p) {x r : Int} (h : Leads f x r) :
    Leads (f.link p (f.parent (f.parent p))) x r := by
  induction h with
  | @root x top =>
    have ne : x ≠ p := fun e => below (e ▸ top)
    exact .root (by rw [parent_link_ne f ne]; exact top)
  | @up x r below' above ih =>
    by_cases hx : x = p
    · subst hx
      refine .up (by rw [parent_link_self]; exact grand) ?_
      rw [parent_link_self]
      -- the way through the parent goes on to the grandparent in either forest
      have := ih.parent
      rwa [parent_link_ne f below'] at this
    · refine .up (by rw [parent_link_ne f hx]; exact below') ?_
      rw [parent_link_ne f hx]
      exact ih

/-- `g` is `f` with shorter ways to the same roots. -/
structure Shortened (f g : Forest) : Prop where
  sound : Sound g
  leads : ∀ x r, Leads g x r ↔ Leads f x r
  members : g.members = f.members
  sizes : g.sizes = f.sizes

theorem Shortened.trans {f g k : Forest} (h₁ : Shortened f g) (h₂ : Shortened g k) :
    Shortened f k :=
  ⟨h₂.sound, fun x r => (h₂.leads x r).trans (h₁.leads x r), h₂.members.trans h₁.members,
    h₂.sizes.trans h₁.sizes⟩

/-- One step of a climb. -/
theorem Ranked.halve {f : Forest} {rank : Int → Nat} (h : Ranked f rank) {p : Int}
    (below : f.parent p ≠ p) :
    rank p < rank (f.parent (f.parent p)) ∧
      Ranked (f.link p (f.parent (f.parent p))) rank ∧
      Shortened f (f.link p (f.parent (f.parent p))) := by
  have first := h.up p below
  have higher : rank p < rank (f.parent (f.parent p)) := by
    by_cases top : f.parent (f.parent p) = f.parent p
    · rw [top]
      exact first
    · exact Nat.lt_trans first (h.up _ top)
  have grand : f.parent (f.parent p) ≠ p := fun e => by
    rw [e] at higher
    exact Nat.lt_irrefl _ higher
  have ranked := h.link_higher below higher
  refine ⟨higher, ranked, ⟨rank, ranked⟩, fun x r => ⟨fun new => ?_, .halve below grand⟩, rfl, rfl⟩
  obtain ⟨r', old⟩ := h.leads x
  rw [new.unique (old.halve below grand)]
  exact old

/-- A climb with enough fuel ends at the root. -/
theorem climb_spec {rank : Int → Nat} : ∀ (fuel : Nat) (f : Forest) (p : Int), Ranked f rank →
    f.links.length < fuel + rank p →
    Leads f p (climb fuel f p).1 ∧ Shortened f (climb fuel f p).2
  | 0, f, p, h, enough => by
    -- no rank exceeds the number of links, so there is fuel while ranks are to climb
    have := h.bound p
    omega
  | fuel + 1, f, p, h, enough => by
    unfold climb
    split
    next top => exact ⟨.root top, ⟨rank, h⟩, fun _ _ => Iff.rfl, rfl, rfl⟩
    next below =>
      obtain ⟨higher, ranked, short⟩ := h.halve below
      have length := h.length_link_of_below (q := f.parent (f.parent p)) below
      obtain ⟨ends, rest⟩ := climb_spec fuel _ (f.parent (f.parent p)) ranked (by omega)
      rw [short.leads] at ends
      refine ⟨?_, short.trans rest⟩
      -- the root of the grandparent is the root of the id
      obtain ⟨r, old⟩ := h.leads p
      have := old.parent.parent
      rw [ends.unique this]
      exact old

/-- **A find yields the root, and changes no root.** -/
theorem find_spec {f : Forest} (h : Sound f) (p : Int) :
    Leads f p (f.find p).1 ∧ Shortened f (f.find p).2 := by
  obtain ⟨rank, h⟩ := h
  exact climb_spec (f.links.length + 1) f p h (by omega)

/-- In a sound forest every id leads to its root. -/
theorem leads_root {f : Forest} (h : Sound f) (p : Int) : Leads f p (f.root p) :=
  (find_spec h p).1

theorem root_eq_of_leads {f : Forest} (h : Sound f) {p r : Int} (leads : Leads f p r) :
    f.root p = r := (leads_root h p).unique leads

/-- The root of a root is the root itself. -/
theorem root_root {f : Forest} (h : Sound f) (p : Int) : f.root (f.root p) = f.root p :=
  root_eq_of_leads h (.root (leads_root h p).top)

theorem Shortened.root {f g : Forest} (h : Sound f) (s : Shortened f g) (p : Int) :
    g.root p = f.root p :=
  root_eq_of_leads s.sound ((s.leads p _).mpr (leads_root h p))

/-! ## Entering and joining -/

theorem sound_insert {f : Forest} (h : Sound f) (p : Int) : Sound (f.insert p) := by
  obtain ⟨rank, h⟩ := h
  exact ⟨rank, h.keys, h.proper, h.bound, h.up⟩

theorem root_insert {f : Forest} (h : Sound f) (p x : Int) : (f.insert p).root x = f.root x := by
  apply root_eq_of_leads (sound_insert h p)
  have old := leads_root h x
  generalize f.root x = r at old ⊢
  induction old with
  | root top => exact .root top
  | up below above ih => exact .up below ih

/-- Joining one root below another moves the class of the first one. -/
theorem join_spec {f : Forest} (h : Sound f) {c r : Int} (top : f.parent c = c)
    (top' : f.parent r = r) (ne : c ≠ r) :
    Sound (f.join c r) ∧
      ∀ x, (f.join c r).root x = if f.root x = c then r else f.root x := by
  obtain ⟨rank, h⟩ := h
  have ranked := h.link_roots top top' ne.symm
  have sound : Sound (f.join c r) := ⟨_, ranked.keys, ranked.proper, ranked.bound, ranked.up⟩
  have parent : ∀ x, (f.join c r).parent x = if x = c then r else f.parent x :=
    fun x => parent_link f c r x
  refine ⟨sound, fun x => root_eq_of_leads sound ?_⟩
  have root_r : Leads (f.join c r) r r := .root (by rw [parent, if_neg ne.symm]; exact top')
  have old := leads_root ⟨rank, h⟩ x
  generalize f.root x = y at old ⊢
  induction old with
  | @root x topX =>
    split
    next eq =>
      -- the root that was joined has one more step to go
      refine .up (by rw [parent, if_pos eq, eq]; exact ne.symm) ?_
      rw [parent, if_pos eq]
      exact root_r
    next neq => exact .root (by rw [parent, if_neg neq]; exact topX)
  | @up x y below above ih =>
    have hx : x ≠ c := fun e => below (by rw [e]; exact top)
    refine .up (by rw [parent, if_neg hx]; exact below) ?_
    rw [parent, if_neg hx]
    exact ih

/-- A union finds both roots, and joins them unless they are the same. -/
theorem union_cases {f : Forest} (h : Sound f) (p q : Int) :
    (f.root p = f.root q ∧ Shortened f (f.union p q)) ∨
    ∃ g c r, Shortened f g ∧ g.parent c = c ∧ g.parent r = r ∧ c ≠ r ∧
      (c = f.root q ∧ r = f.root p ∨ c = f.root p ∧ r = f.root q) ∧ f.union p q = g.join c r := by
  obtain ⟨leadsP, shortP⟩ := find_spec h p
  obtain ⟨leadsQ, shortQ⟩ := find_spec shortP.sound q
  have short := shortP.trans shortQ
  have rootQ : ((f.find p).2.find q).1 = f.root q := shortP.root h q
  have topP : ((f.find p).2.find q).2.parent (f.root p) = f.root p :=
    ((short.leads _ _).mpr (leads_root h p)).top
  have topQ : ((f.find p).2.find q).2.parent (f.root q) = f.root q :=
    ((short.leads _ _).mpr (leads_root h q)).top
  unfold union
  simp only
  rw [rootQ, show (f.find p).1 = f.root p from rfl]
  split
  next eq => exact Or.inl ⟨eq, short⟩
  next ne =>
    refine Or.inr ?_
    split
    next => exact ⟨_, _, _, short, topQ, topP, Ne.symm ne, Or.inl ⟨rfl, rfl⟩, rfl⟩
    next => exact ⟨_, _, _, short, topP, topQ, ne, Or.inr ⟨rfl, rfl⟩, rfl⟩

/-- **A union makes two classes one.** Their common root is one of the two before, and every other
class keeps its root. -/
theorem root_union {f : Forest} (h : Sound f) (p q : Int) :
    Sound (f.union p q) ∧ (f.union p q).members = f.members ∧
      ∃ w, (w = f.root p ∨ w = f.root q) ∧
        ∀ x, (f.union p q).root x =
          if f.root x = f.root p ∨ f.root x = f.root q then w else f.root x := by
  rcases union_cases h p q with ⟨eq, short⟩ | ⟨g, c, r, short, topC, topR, ne, ends, union⟩
  · -- both are in one class already
    refine ⟨short.sound, short.members, f.root p, Or.inl rfl, fun x => ?_⟩
    rw [short.root h x]
    split
    next e => exact e.elim id fun e => e.trans eq.symm
    next => rfl
  · obtain ⟨sound, root⟩ := join_spec short.sound topC topR ne
    rw [union]
    refine ⟨sound, short.members, r, ends.imp And.right And.right, fun x => ?_⟩
    rw [root, short.root h x]
    -- what had the root that keeps its place has it still
    have moved : f.root x = f.root p ∨ f.root x = f.root q ↔ f.root x = c ∨ f.root x = r := by
      rcases ends with ⟨rfl, rfl⟩ | ⟨rfl, rfl⟩
      · exact Or.comm
      · exact Iff.rfl
    simp only [moved]
    by_cases hc : f.root x = c
    · rw [if_pos hc, if_pos (Or.inl hc)]
    · rw [if_neg hc]
      split
      next e => exact e.resolve_left hc
      next => rfl

end SketchSolver.Forest

import SketchSolver.Equation
import SketchSolver.Proofs.SortedIds
import SketchSolver.Proofs.StoreFrame

/-!
# Histories of a list

A list in the order of ids is a map from ids to items. `Request` is what can be asked of a
list, `Request.run` what the list does, and `Request.Meets` what a map would do; a map is a
function, so nothing of order or search is left in it. Every list that came out of an empty
one by `Fair` requests is in order, and has answered as the map has (`IdList.refines_map`).

What an item is, is left to an `ItemAccess`: parameters keep their ids in a store that all of
them share, and so writing to one item must not move another one; equations carry their ids
with them. The two instances are what lists of parameters and of equations do
(`Request.run_handles`, `Request.run_equations`).

A request is fair if the list does not have the item that is added already, and if nobody else
has changed the ids of what it has. Both can be violated: parameters are shared, and whoever
holds one may write its id. Then the list is out of order and a look-up may miss what is
there, which no map would do. Other writes to the store, of values and tags and of ids that
are not listed, are among the requests (`Request.outside`).

`Meets` is a relation and not a function, since a map leaves open what a list decides: the
order in which tags are cleared, and which new id is given out. What it says about a new id is
that it is positive, above all others, and follows one of them if it is not the first. So the
largest id is not below zero, even if all ids in the list are.

The state of the list is compared with that of the map after every request
(`Request.run_meets`), and the run lemma puts the comparisons in a row. The map is not
invented on the way: it is what the look-ups of the list answer (`Holding.mapping`).
-/

namespace SketchSolver

/-- How a list reads and writes the ids and tags of its items, which may be in a store that the
items share. Two items that are the same thing there are `Alias`. -/
structure ItemAccess (σ β : Type) where
  id : σ → β → Int
  /-- The item under another id, and the store then. -/
  setId : σ → β → Int → β × σ
  Alias : β → β → Prop
  /-- The item with its tag cleared, as far as it carries the tag with it. -/
  untag : β → β
  /-- The store with the tags of some items cleared. -/
  untagAll : σ → List β → σ
  id_setId : ∀ s x i, id (setId s x i).2 (setId s x i).1 = i
  id_setId_other : ∀ s x y i, ¬Alias x y → id (setId s x i).2 y = id s y
  id_untag : ∀ s xs x, id (untagAll s xs) (untag x) = id s x

namespace ItemAccess

variable {α : Type}

/-- Parameters, whose ids and tags are in the store. -/
def handles [Zero α] : ItemAccess (Store α) Handle where
  id s h := s.id h
  setId s h i := (h, s.setId h i)
  Alias h k := h = k
  untag h := h
  untagAll s hs := hs.foldl (fun s h => s.setTag h 0) s
  id_setId s h i := by rw [Store.id_setId, if_pos rfl]
  id_setId_other s h k i ne := by rw [Store.id_setId, if_neg ne]
  id_untag s hs h := by
    induction hs generalizing s with
    | nil => rfl
    | cons k hs ih => rw [List.foldl_cons, ih, Store.id_setTag]

instance [Zero α] (h k : Handle) : Decidable ((handles (α := α)).Alias h k) :=
  inferInstanceAs (Decidable (h = k))

/-- Equations, which carry their ids and tags with them. -/
def equations : ItemAccess Unit (Equation α) where
  id _ e := e.id
  setId _ e i := ({ e with id := i }, ())
  Alias _ _ := False
  untag e := { e with tag := 0 }
  untagAll _ _ := ()
  id_setId _ _ _ := rfl
  id_setId_other _ _ _ _ _ := rfl
  id_untag _ _ _ := rfl

end ItemAccess

namespace IdList

variable {σ β : Type}

/-- A list, and the store of its items. -/
structure Holding (σ β : Type) where
  store : σ
  list : IdList β

/-- The id that the next new item gets. -/
def Holding.freshId (acc : ItemAccess σ β) (h : Holding σ β) : Int :=
  h.list.maxId (acc.id h.store) + 1

/-- What can be asked of a list, and what may happen to the store in between. -/
inductive Request (σ β : Type) where
  | add (x : β)
  | addFresh (x : β)
  | remove (id : Int)
  | find (id : Int)
  | maxId
  | clearTags
  | clear
  /-- Somebody else writes to the store. -/
  | outside (store : σ)

/-- What the list answers. -/
inductive Reply (β : Type) where
  | done
  | duplicate (id : Int)
  | item (found : Option β)
  | id (id : Int)
  deriving DecidableEq, Repr

/-- A map from ids to items, and the store of the items. -/
structure Mapping (σ β : Type) where
  store : σ
  item : Int → Option β

/-- The map with another item, or none, under one id. -/
def Mapping.put (m : Mapping σ β) (id : Int) (x? : Option β) : Mapping σ β :=
  { m with item := fun i => if i = id then x? else m.item i }

namespace Request

variable (acc : ItemAccess σ β)

/-- What the list does. -/
def run (h : Holding σ β) : Request σ β → Reply β × Holding σ β
  | add x =>
    match h.list.insert? (acc.id h.store) x with
    | some list => (.done, { h with list })
    | none => (.duplicate (acc.id h.store x), h)
  | addFresh x =>
    let new := acc.setId h.store x (h.freshId acc)
    match h.list.insert? (acc.id new.2) new.1 with
    | some list => (.id (h.freshId acc), ⟨new.2, list⟩)
    | none => (.duplicate (h.freshId acc), { h with store := new.2 })
  | remove id =>
    match h.list.remove? (acc.id h.store) id with
    | some (x, list) => (.item (some x), { h with list })
    | none => (.item none, h)
  | find id => (.item (h.list.find? (acc.id h.store) id), h)
  | maxId => (.id (h.list.maxId (acc.id h.store)), h)
  | clearTags => (.done, ⟨acc.untagAll h.store h.list.toList, h.list.map acc.untag⟩)
  | clear => (.done, { h with list := empty })
  | outside store => (.done, { h with store })

/-- An item is given to the list only while the list does not have it, and nobody else changes the
ids of what it has. -/
def Fair (h : Holding σ β) : Request σ β → Prop
  | add x | addFresh x => ∀ y ∈ h.list.toList, ¬acc.Alias x y
  | outside store => ∀ y ∈ h.list.toList, acc.id store y = acc.id h.store y
  | _ => True

/-- What a map does. A new id is positive and larger than all others. -/
def Meets (m : Mapping σ β) : Request σ β → Reply β → Mapping σ β → Prop
  | add x, reply, m' =>
    let id := acc.id m.store x
    match m.item id with
    | some _ => reply = .duplicate id ∧ m' = m
    | none => reply = .done ∧ m' = m.put id (some x)
  | addFresh x, reply, m' => ∃ id, 0 < id ∧ (∀ i, m.item i ≠ none → i < id) ∧
      (id = 1 ∨ m.item (id - 1) ≠ none) ∧ reply = .id id ∧
      m' = { m with store := (acc.setId m.store x id).2 }.put id (acc.setId m.store x id).1
  | remove id, reply, m' => reply = .item (m.item id) ∧ m' = m.put id none
  | find id, reply, m' => reply = .item (m.item id) ∧ m' = m
  | maxId, reply, m' => ∃ id, 0 ≤ id ∧ (∀ i, m.item i ≠ none → i ≤ id) ∧
      (id = 0 ∨ m.item id ≠ none) ∧ reply = .id id ∧ m' = m
  | clearTags, reply, m' => reply = .done ∧ ∃ xs, (∀ x, x ∈ xs ↔ ∃ i, m.item i = some x) ∧
      m' = ⟨acc.untagAll m.store xs, fun i => (m.item i).map acc.untag⟩
  | clear, reply, m' => reply = .done ∧ m' = { m with item := fun _ => none }
  | outside store, reply, m' => reply = .done ∧ m' = { m with store }

/-- What the list does with several requests, one after the other. -/
def runAll (h : Holding σ β) : List (Request σ β) → List (Reply β) × Holding σ β
  | [] => ([], h)
  | r :: rs =>
    let (reply, h) := r.run acc h
    let (replies, h) := runAll h rs
    (reply :: replies, h)

/-- Every request is fair when its turn comes. -/
def FairAll (h : Holding σ β) : List (Request σ β) → Prop
  | [] => True
  | r :: rs => r.Fair acc h ∧ FairAll (r.run acc h).2 rs

section Decidable

variable [∀ x y, Decidable (acc.Alias x y)]

instance (h : Holding σ β) : ∀ r : Request σ β, Decidable (r.Fair acc h)
  | add _ | addFresh _ | outside _ => by unfold Fair; exact inferInstance
  | remove _ | find _ | maxId | clearTags | clear => .isTrue trivial

instance decidableFairAll : ∀ (h : Holding σ β) (rs : List (Request σ β)),
    Decidable (FairAll acc h rs)
  | _, [] => .isTrue trivial
  | h, r :: rs =>
    have := decidableFairAll (r.run acc h).2 rs
    inferInstanceAs (Decidable (r.Fair acc h ∧ FairAll acc (r.run acc h).2 rs))

end Decidable

/-- What a map does with several requests, one after the other. -/
inductive MeetsAll : Mapping σ β → List (Request σ β) → List (Reply β) → Mapping σ β → Prop
  | nil (m) : MeetsAll m [] [] m
  | cons {m m' m'' r reply rs replies} (first : r.Meets acc m reply m')
      (rest : MeetsAll m' rs replies m'') : MeetsAll m (r :: rs) (reply :: replies) m''

end Request

/-! ## The map of a list -/

variable (acc : ItemAccess σ β)

/-- What a list says is stored under each id. -/
def Holding.mapping (h : Holding σ β) : Mapping σ β :=
  ⟨h.store, fun id => h.list.find? (acc.id h.store) id⟩

namespace Request

variable {acc} {h : Holding σ β}

theorem run_add_of_some {x : β} {list : IdList β}
    (added : h.list.insert? (acc.id h.store) x = some list) :
    run acc h (.add x) = (.done, { h with list }) := by
  simp only [run, added]

/-- An item whose id is taken is refused, and nothing changes. -/
theorem run_add_of_none {x : β} (refused : h.list.insert? (acc.id h.store) x = none) :
    run acc h (.add x) = (.duplicate (acc.id h.store x), h) := by
  simp only [run, refused]

theorem run_addFresh_of_some {x x' : β} {store : σ} {list : IdList β}
    (written : acc.setId h.store x (h.freshId acc) = (x', store))
    (added : h.list.insert? (acc.id store) x' = some list) :
    run acc h (.addFresh x) = (.id (h.freshId acc), ⟨store, list⟩) := by
  simp only [run, written, added]

/-- If that should be taken, the id has been written all the same. -/
theorem run_addFresh_of_none {x x' : β} {store : σ}
    (written : acc.setId h.store x (h.freshId acc) = (x', store))
    (refused : h.list.insert? (acc.id store) x' = none) :
    run acc h (.addFresh x) = (.duplicate (h.freshId acc), { h with store }) := by
  simp only [run, written, refused]

/-- Adding an item puts it under its id. -/
theorem mapping_insert {x : β} {list : IdList β} (sorted : Sorted (acc.id h.store) h.list)
    (added : h.list.insert? (acc.id h.store) x = some list) :
    Holding.mapping acc { h with list } = (h.mapping acc).put (acc.id h.store x) (some x) :=
  congrArg (Mapping.mk h.store) (funext (find?_insert? sorted added))

/-- Removing an item leaves its id without one. -/
theorem mapping_remove {x : β} {id : Int} {list : IdList β}
    (sorted : Sorted (acc.id h.store) h.list)
    (removed : h.list.remove? (acc.id h.store) id = some (x, list)) :
    Holding.mapping acc { h with list } = (h.mapping acc).put id none :=
  congrArg (Mapping.mk h.store) (funext (find?_remove? sorted removed))

/-- A write to the store that keeps the ids of what is listed. -/
theorem mapping_store {store : σ} (same : ∀ y ∈ h.list.toList, acc.id store y = acc.id h.store y) :
    Holding.mapping acc { h with store } = { h.mapping acc with store } :=
  congrArg (Mapping.mk store) (funext fun _ => find?_congr same)

/-- Where nothing is found there is nothing to remove. -/
theorem put_none {id : Int} (absent : h.list.find? (acc.id h.store) id = none) :
    (h.mapping acc).put id none = h.mapping acc := by
  refine congrArg (Mapping.mk h.store) (funext fun i => ?_)
  split
  next eq => rw [eq, absent]
  next => rfl

/-- The map has an id if a listed item has it. -/
theorem item_ne_none_iff (sorted : Sorted (acc.id h.store) h.list) {id : Int} :
    (h.mapping acc).item id ≠ none ↔ ∃ y ∈ h.list.toList, acc.id h.store y = id := by
  show h.list.find? (acc.id h.store) id ≠ none ↔ _
  rw [Ne, find?_eq_none_iff sorted]
  simp only [Classical.not_forall, Decidable.not_not, exists_prop]

/-- An item is refused where its id is taken. -/
theorem run_add_meets (sorted : Sorted (acc.id h.store) h.list) {x : β} :
    Sorted (acc.id (run acc h (.add x)).2.store) (run acc h (.add x)).2.list ∧
      Meets acc (h.mapping acc) (.add x) (run acc h (.add x)).1
        ((run acc h (.add x)).2.mapping acc) := by
  cases added : h.list.insert? (acc.id h.store) x with
  | some list =>
    rw [run_add_of_some added]
    have absent : (h.mapping acc).item (acc.id h.store x) = none := by
      refine (find?_eq_none_iff sorted).mpr fun y mem same => ?_
      cases added.symm.trans ((insert?_eq_none_iff sorted).mpr ⟨y, mem, same⟩)
    refine ⟨insert?_sorted sorted added, ?_⟩
    unfold Meets
    dsimp only
    rw [show (h.mapping acc).store = h.store from rfl, absent]
    exact ⟨rfl, mapping_insert sorted added⟩
  | none =>
    rw [run_add_of_none added]
    obtain ⟨y, mem, same⟩ := (insert?_eq_none_iff sorted).mp added
    have present : (h.mapping acc).item (acc.id h.store x) = some y :=
      (find?_eq_some_iff sorted).mpr ⟨mem, same⟩
    refine ⟨sorted, ?_⟩
    unfold Meets
    dsimp only
    rw [show (h.mapping acc).store = h.store from rfl, present]
    exact ⟨rfl, rfl⟩

/-- A new item gets an id above all others, so it is never refused. -/
theorem run_addFresh_meets (sorted : Sorted (acc.id h.store) h.list) {x : β}
    (fair : ∀ y ∈ h.list.toList, ¬acc.Alias x y) :
    let r : Request σ β := .addFresh x
    Sorted (acc.id (r.run acc h).2.store) (r.run acc h).2.list ∧
      r.Meets acc (h.mapping acc) (r.run acc h).1 ((r.run acc h).2.mapping acc) := by
  intro r
  obtain ⟨⟨x', store⟩, written⟩ : ∃ w, acc.setId h.store x (h.freshId acc) = w := ⟨_, rfl⟩
  have new : acc.id store x' = h.freshId acc := by
    have := acc.id_setId h.store x (h.freshId acc)
    rwa [written] at this
  have same : ∀ y ∈ h.list.toList, acc.id store y = acc.id h.store y := by
    intro y mem
    have := acc.id_setId_other h.store x y (h.freshId acc) (fair y mem)
    rwa [written] at this
  -- the new id is above all others, so the list has it at its end
  have largest : ∀ y ∈ h.list.toList, acc.id h.store y < h.freshId acc :=
    fun y mem => Int.lt_add_one_of_le (le_maxId sorted mem)
  have sorted' : Sorted (acc.id store) h.list := sorted.congr same
  have added := insert?_last (x := x') sorted' fun y mem => by
    rw [new, same y mem]
    exact largest y mem
  rw [show r.run acc h = _ from run_addFresh_of_some written added]
  refine ⟨insert?_sorted sorted' added, h.freshId acc, ?_, fun i present => ?_, ?_, rfl, ?_⟩
  · exact Int.lt_add_one_of_le maxId_nonneg
  · obtain ⟨y, mem, rfl⟩ := (item_ne_none_iff sorted).mp present
    exact largest y mem
  · unfold Holding.freshId
    rcases (maxId_attained : h.list.maxId (acc.id h.store) = 0 ∨ _) with zero | attained
    · exact Or.inl (by rw [zero, Int.zero_add])
    · exact Or.inr ((item_ne_none_iff sorted).mpr (by rwa [Int.add_sub_cancel]))
  · rw [show acc.setId (h.mapping acc).store x (h.freshId acc) = _ from written,
      ← mapping_store same, ← new]
    exact mapping_insert (h := { h with store }) sorted' added

/-- Clearing tags changes no id. -/
theorem run_clearTags_meets (sorted : Sorted (acc.id h.store) h.list) :
    let r : Request σ β := .clearTags
    Sorted (acc.id (r.run acc h).2.store) (r.run acc h).2.list ∧
      r.Meets acc (h.mapping acc) (r.run acc h).1 ((r.run acc h).2.mapping acc) := by
  intro r
  have list : (h.list.map acc.untag).toList = h.list.toList.map acc.untag := Array.toList_map
  have same (y : β) : acc.id (acc.untagAll h.store h.list.toList) (acc.untag y) =
      acc.id h.store y := acc.id_untag h.store _ y
  have sorted' : Sorted (acc.id (acc.untagAll h.store h.list.toList)) (h.list.map acc.untag) := by
    unfold Sorted
    rw [list, List.pairwise_map]
    simp only [same]
    exact sorted
  refine ⟨sorted', rfl, h.list.toList, fun x => ?_, ?_⟩
  · exact ⟨fun mem => ⟨_, find?_key sorted mem⟩, fun ⟨_, found⟩ => (find?_some found).1⟩
  · refine congrArg (Mapping.mk _) (funext fun i => Option.ext fun y => ?_)
    show (h.list.map acc.untag).find? (acc.id (acc.untagAll h.store h.list.toList)) i = some y ↔
      (h.list.find? (acc.id h.store) i).map acc.untag = some y
    rw [find?_eq_some_iff sorted', list, List.mem_map, Option.map_eq_some_iff]
    constructor
    · rintro ⟨⟨x, mem, rfl⟩, id⟩
      exact ⟨x, (find?_eq_some_iff sorted).mpr ⟨mem, (same x).symm.trans id⟩, rfl⟩
    · rintro ⟨x, found, rfl⟩
      obtain ⟨mem, id⟩ := find?_some found
      exact ⟨⟨x, mem, rfl⟩, (same x).trans id⟩

/-- **One request.** A list in order stays in order, and it answers and changes as its map does. -/
theorem run_meets (sorted : Sorted (acc.id h.store) h.list) {r : Request σ β}
    (fair : r.Fair acc h) :
    Sorted (acc.id (r.run acc h).2.store) (r.run acc h).2.list ∧
      r.Meets acc (h.mapping acc) (r.run acc h).1 ((r.run acc h).2.mapping acc) := by
  cases r with
  | add x => exact run_add_meets sorted
  | addFresh x => exact run_addFresh_meets sorted fair
  | remove id =>
    unfold run Meets
    dsimp only
    cases removed : h.list.remove? (acc.id h.store) id with
    | some found =>
      obtain ⟨x, list⟩ := found
      refine ⟨remove?_sorted sorted removed, ?_, mapping_remove sorted removed⟩
      exact congrArg Reply.item (remove?_some removed).1.symm
    | none =>
      have absent := remove?_eq_none_iff.mp removed
      exact ⟨sorted, congrArg Reply.item absent.symm, (put_none absent).symm⟩
  | find id => exact ⟨sorted, rfl, rfl⟩
  | maxId =>
    refine ⟨sorted, _, maxId_nonneg, fun i present => ?_, ?_, rfl, rfl⟩
    · obtain ⟨y, mem, rfl⟩ := (item_ne_none_iff sorted).mp present
      exact le_maxId sorted mem
    · exact maxId_attained.imp_right (item_ne_none_iff sorted).mpr
  | clearTags => exact run_clearTags_meets sorted
  | clear => exact ⟨sorted_empty, rfl, rfl⟩
  | outside store => exact ⟨sorted.congr fair, rfl, mapping_store fair⟩

/-- Several requests. -/
theorem runAll_meets (sorted : Sorted (acc.id h.store) h.list) {rs : List (Request σ β)}
    (fair : FairAll acc h rs) :
    Sorted (acc.id (runAll acc h rs).2.store) (runAll acc h rs).2.list ∧
      MeetsAll acc (h.mapping acc) rs (runAll acc h rs).1 ((runAll acc h rs).2.mapping acc) := by
  induction rs generalizing h with
  | nil => exact ⟨sorted, .nil _⟩
  | cons r rs ih =>
    obtain ⟨next, first⟩ := run_meets sorted fair.1
    obtain ⟨last, rest⟩ := ih next fair.2
    exact ⟨last, .cons first rest⟩

end Request

/-- **A list in the order of ids is a map.** Start with an empty list, and make any requests that
are fair when their turn comes. Then the list is in strictly ascending order of the ids, and a map
gives the same answers to the same requests; in the end it has exactly the items of the list, and
every look-up in the list finds what the map has. -/
theorem refines_map {s : σ} {rs : List (Request σ β)} (fair : Request.FairAll acc ⟨s, empty⟩ rs) :
    let out := Request.runAll acc ⟨s, empty⟩ rs
    Sorted (acc.id out.2.store) out.2.list ∧
      ∃ m, Request.MeetsAll acc ⟨s, fun _ => none⟩ rs out.1 m ∧ m.store = out.2.store ∧
        (∀ id, out.2.list.find? (acc.id out.2.store) id = m.item id) ∧
        ∀ x, x ∈ out.2.list.toList ↔ ∃ id, m.item id = some x := by
  obtain ⟨sorted, meets⟩ := Request.runAll_meets (h := ⟨s, empty⟩) sorted_empty fair
  refine ⟨sorted, _, meets, rfl, fun id => rfl, fun x => ?_⟩
  constructor
  · intro mem
    exact ⟨_, find?_key sorted mem⟩
  · rintro ⟨id, found⟩
    exact (find?_some found).1

/-- Two items with negative ids of which one is refused and then gets a new one, and an item with
the id zero between them. -/
theorem refines_map_negativeTwice :
    let s : Store Float := ⟨#[{ id := -5, value := 0, symbol := "a" },
      { id := 0, value := 0, symbol := "b" }, { id := -5, value := 0, symbol := "c" }]⟩
    let rs : List (Request (Store Float) Handle) := [.add ⟨0⟩, .add ⟨1⟩, .add ⟨2⟩, .addFresh ⟨2⟩,
      .find 0, .remove (-5), .find (-5), .clearTags, .maxId]
    let out := Request.runAll .handles ⟨s, empty⟩ rs
    Request.FairAll .handles ⟨s, empty⟩ rs ∧
      out.1 = [.done, .done, .duplicate (-5), .id 1, .item (some ⟨1⟩), .item (some ⟨0⟩),
        .item none, .done, .id 1] ∧
      Sorted (ItemAccess.handles.id out.2.store) out.2.list := by
  intro s rs
  have fair : Request.FairAll .handles ⟨s, empty⟩ rs := by decide +kernel
  exact ⟨fair, by decide +kernel, (refines_map .handles fair).1⟩

/-! ## Parameters and equations -/

namespace Request

variable {α : Type}

/-- Requests to a list of parameters. -/
theorem run_handles [Zero α] (s : Store α) (l : ParamList) (h : Handle) (id : Int) :
    run .handles ⟨s, l⟩ (.add h) = (match l.add? s h with
      | some l => (.done, ⟨s, l⟩)
      | none => (.duplicate (s.id h), ⟨s, l⟩)) ∧
    run .handles ⟨s, l⟩ (.addFresh h) = (match l.addFresh? s h with
      | (some l, s') => (.id (s'.id h), ⟨s', l⟩)
      | (none, s') => (.duplicate (s'.id h), ⟨s', l⟩)) ∧
    run .handles ⟨s, l⟩ (.find id) = (.item (l.byId? s id), ⟨s, l⟩) ∧
    run .handles ⟨s, l⟩ .clearTags = (.done, ⟨l.clearTags s, l⟩) := by
  refine ⟨?_, ?_, rfl, ?_⟩
  · cases added : l.add? s h with
    | some l' => exact run_add_of_some added
    | none => exact run_add_of_none added
  · have new : (l.withFreshId s h).id h = Holding.freshId .handles ⟨s, l⟩ :=
      ItemAccess.handles.id_setId s h _
    rw [show l.addFresh? s h = (l.add? (l.withFreshId s h) h, l.withFreshId s h) from rfl]
    cases added : l.add? (l.withFreshId s h) h with
    | some l' =>
      show _ = (Reply.id ((l.withFreshId s h).id h), (⟨l.withFreshId s h, l'⟩ : Holding _ _))
      rw [new]
      exact run_addFresh_of_some rfl added
    | none =>
      show _ = (Reply.duplicate ((l.withFreshId s h).id h), (⟨l.withFreshId s h, l⟩ : Holding _ _))
      rw [new]
      exact run_addFresh_of_none rfl added
  · exact congrArg (fun l' => (Reply.done, (⟨l.clearTags s, l'⟩ : Holding (Store α) Handle)))
      (congrArg IdList.mk (Array.map_id l.items))

/-- Requests to a list of equations. -/
theorem run_equations (l : EquationList α) (e : Equation α) (id : Int) :
    run .equations ⟨(), l⟩ (.add e) = (match l.add? e with
      | some l => (.done, ⟨(), l⟩)
      | none => (.duplicate e.id, ⟨(), l⟩)) ∧
    run .equations ⟨(), l⟩ (.addFresh e) = (match l.addFresh? e with
      | some l' => (.id (l.numbered e).id, ⟨(), l'⟩)
      | none => (.duplicate (l.numbered e).id, ⟨(), l⟩)) ∧
    run .equations ⟨(), l⟩ (.find id) = (.item (l.byId? id), ⟨(), l⟩) ∧
    run .equations ⟨(), l⟩ .clearTags = (.done, ⟨(), l.clearTags⟩) := by
  refine ⟨?_, ?_, rfl, rfl⟩
  · cases added : l.add? e with
    | some l' => exact run_add_of_some added
    | none => exact run_add_of_none added
  · cases added : l.addFresh? e with
    | some l' => exact run_addFresh_of_some rfl added
    | none => exact run_addFresh_of_none rfl added

end Request

end IdList

end SketchSolver

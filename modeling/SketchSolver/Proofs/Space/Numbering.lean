import SketchSolver.Proofs.Problem.Loading
import SketchSolver.Proofs.StoreFrame
import SketchSolver.Space.Basic

/-!
# Numbering parameters

`Space.number` takes all met parameters out of every list and then gives them the ids 1, 2, …
in the order in which they are met first. It never fails, and what it leaves depends on the
met parameters alone: the list is theirs without repetitions, each of them has its position
as its id (`Numbered`), and nothing but ids has changed (`Renumbered`).

A parameter is shared by everybody who has its handle, and so is its id. A parameter in a
list of a space may thus have been numbered since, on behalf of another space, and a list
that looks parameters up by their ids finds the wrong one or none. Taking all of them out
first makes numbering independent of that past: afterwards a parameter has the id 0 until it
is listed, and a list that has only positive ids does not have it. The loop over the met
parameters then keeps two things, that the list is `Numbered` and that what was met and is
not listed has the id 0 (`numberParams_ok`), and from the second it follows that what is
added next is added under the next id.

The stored ids are integers, as in the program, and 0 stands for a parameter that is in no
list. `Numbered` states them as positions, counted from one, and gives at once what the
lists ask for: that their ids ascend (`Numbered.sorted`) and that no two parameters share
one (`Numbered.own`).

The order of the list is `List.eraseDups`, which keeps the first of equal items. The lemmas
about it are those that the loop needs.
-/

namespace SketchSolver

variable {α : Type} [Zero α]

/-- `t` is `s` with other ids under the given handles. -/
structure Store.Renumbered (hs : List Handle) (s t : Store α) : Prop where
  get : ∀ h, t.get h = { s.get h with id := t.id h }
  frame : ∀ h, h ∉ hs → t.get h = s.get h

namespace Store.Renumbered

variable {hs : List Handle} {s t u : Store α}

theorem refl (hs : List Handle) (s : Store α) : Renumbered hs s s := ⟨fun _ => rfl, fun _ _ => rfl⟩

theorem trans (h₁ : Renumbered hs s t) (h₂ : Renumbered hs t u) : Renumbered hs s u :=
  ⟨fun h => by rw [h₂.get h, h₁.get h], fun h hh => (h₂.frame h hh).trans (h₁.frame h hh)⟩

theorem setId {k : Handle} (hk : k ∈ hs) (s : Store α) (i : Int) :
    Renumbered hs s (s.setId k i) := by
  refine ⟨fun h => ?_, fun h hh => ?_⟩
  · rw [id_setId]
    unfold Store.setId
    rw [get_modify]
    split
    next e => rw [e]
    next => rfl
  · unfold Store.setId
    rw [get_modify, if_neg (show ¬ k = h from fun e => hh (e ▸ hk))]

theorem value (h : Renumbered hs s t) (k : Handle) : t.value k = s.value k := by
  unfold Store.value
  rw [h.get k]

theorem id (h : Renumbered hs s t) {k : Handle} (hk : k ∉ hs) : t.id k = s.id k := by
  unfold Store.id
  rw [h.frame k hk]

/-- Taking parameters out of lists writes their ids only. -/
theorem detachAll (hs : List Handle) : ∀ {ks : List Handle} (s : Store α), (∀ k ∈ ks, k ∈ hs) →
    Renumbered hs s (ks.foldl Store.detach s)
  | [], s, _ => refl hs s
  | k :: ks, s, sub => by
    rw [List.foldl_cons]
    exact (setId (sub k List.mem_cons_self) s unassigned).trans
      (detachAll hs _ fun j hj => sub j (List.mem_cons_of_mem k hj))

end Store.Renumbered

/-- Detaching leaves a parameter without an id. -/
theorem id_detachAll {h : Handle} {ks : List Handle} (s : Store α) (mem : h ∈ ks) :
    (ks.foldl Store.detach s).id h = unassigned := by
  unfold Store.detach Store.setId Store.id
  rw [Store.get_foldl_modify (f := ({ · with id := unassigned })) (fun _ => rfl) s mem]

/-- The ids of the listed parameters are their positions, counted from one. -/
def Numbered (l : ParamList) (s : Store α) : Prop :=
  ∀ i (h : i < l.items.size), s.id l.items[i] = i + 1

namespace Numbered

variable {l : ParamList} {s t : Store α} {h : Handle}

/-- A listed parameter has a position, and its id is the next number. -/
theorem exists_position (numbered : Numbered l s) (mem : h ∈ l.toList) :
    ∃ i, ∃ bound : i < l.items.size, l.items[i] = h ∧ s.id h = i + 1 := by
  obtain ⟨i, hi, rfl⟩ := List.mem_iff_getElem.mp mem
  have bound : i < l.items.size := by simpa [IdList.toList] using hi
  have eq : l.toList[i] = l.items[i] := by simp [IdList.toList]
  exact ⟨i, bound, eq.symm, (congrArg s.id eq).trans (numbered i bound)⟩

theorem sorted (numbered : Numbered l s) : IdList.Sorted s.id l := by
  refine List.pairwise_iff_getElem.mpr fun i j hi hj lt => ?_
  have boundi : i < l.items.size := by simpa [IdList.toList] using hi
  have boundj : j < l.items.size := by simpa [IdList.toList] using hj
  have atI := numbered i boundi
  have atJ := numbered j boundj
  simp only [IdList.toList, Array.getElem_toList]
  omega

/-- No two listed parameters have one id. -/
theorem own (numbered : Numbered l s) : OwnIds s l.toList := by
  refine ⟨fun h mem => ?_, fun h mem k memk eq => numbered.sorted.eq_of_key_eq mem memk eq⟩
  obtain ⟨i, _, _, id⟩ := numbered.exists_position mem
  omega

/-- A list determines the ids under which it is numbered. -/
theorem id_eq (numbered : Numbered l s) (numbered' : Numbered l t) (mem : h ∈ l.toList) :
    t.id h = s.id h := by
  obtain ⟨i, bound, rfl, id⟩ := numbered.exists_position mem
  rw [numbered' i bound, id]

theorem congr (numbered : Numbered l s) (ids : ∀ h ∈ l.toList, t.id h = s.id h) :
    Numbered l t := by
  intro i bound
  rw [ids _ (by simp [IdList.toList])]
  exact numbered i bound

/-- The largest id is the length of the list. -/
theorem maxId (numbered : Numbered l s) : l.maxId s.id = l.items.size := by
  unfold IdList.maxId
  cases last : l.items.back? with
  | none =>
    rw [Array.back?_eq_none_iff] at last
    simp [last]
  | some x =>
    rw [Array.back?_eq_getElem?] at last
    obtain ⟨bound, eq⟩ := Array.getElem?_eq_some_iff.mp last
    have id := numbered _ bound
    rw [eq] at id
    simp only
    omega

/-- A parameter that is not listed goes to the end, under the next id. -/
theorem addFresh (numbered : Numbered l s) (absent : h ∉ l.toList) :
    l.addFresh? s h = (some ⟨l.items.push h⟩, s.setId h (l.items.size + 1)) ∧
      Numbered ⟨l.items.push h⟩ (s.setId h (l.items.size + 1)) := by
  have others : ∀ k ∈ l.toList, (s.setId h (l.items.size + 1)).id k = s.id k := by
    intro k mem
    rw [Store.id_setId, if_neg (show ¬ h = k from fun e => absent (e ▸ mem))]
  have self : (s.setId h (l.items.size + 1)).id h = l.items.size + 1 := by
    rw [Store.id_setId, if_pos rfl]
  have numbered' := numbered.congr others
  constructor
  · unfold ParamList.addFresh? ParamList.withFreshId ParamList.add?
    rw [numbered.maxId]
    -- with the largest id it belongs at the end
    have largest : ∀ k ∈ l.toList, (s.setId h (l.items.size + 1)).id k <
        (s.setId h (l.items.size + 1)).id h := by
      intro k mem
      obtain ⟨i, bound, _, id⟩ := numbered'.exists_position mem
      rw [id, self]
      omega
    simp only
    rw [IdList.insert?_last numbered'.sorted largest]
  · intro i bound
    rw [Array.getElem_push]
    split
    next old => exact numbered' i old
    next new =>
      rw [Array.size_push] at bound
      obtain rfl : i = l.items.size := by omega
      exact self

end Numbered

/-! ## All met parameters -/

/-- Without repetitions there is nothing to leave out. -/
theorem eraseDups_eq_self : ∀ {hs : List Handle}, hs.Nodup → hs.eraseDups = hs
  | [], _ => rfl
  | h :: hs, nodup => by
    obtain ⟨absent, nodup⟩ := List.nodup_cons.mp nodup
    have others : (hs.filter fun k => !k == h) = hs := by
      refine List.filter_eq_self.mpr fun k mem => ?_
      have : k ≠ h := fun e => absent (e ▸ mem)
      simpa using this
    rw [List.eraseDups_cons, others, eraseDups_eq_self nodup]

theorem eraseDups_append_cons_of_mem {hs ks : List Handle} {h : Handle} (mem : h ∈ hs) :
    (hs ++ h :: ks).eraseDups = (hs ++ ks).eraseDups := by
  rw [List.eraseDups_append, List.eraseDups_append]
  congr 2
  unfold List.removeAll
  rw [List.filter_cons, if_neg]
  simpa using mem

namespace Space

/-- **Numbering never fails**, and appends what is not listed yet in the order in which it is met. -/
theorem numberParams_ok : ∀ {ps : List Handle} {l : ParamList} {s : Store α}, Numbered l s →
    (∀ p ∈ ps, p ∈ l.toList ∨ s.id p = unassigned) →
    ∃ l' t, numberParams ps l s = (.ok (), l', t) ∧ Numbered l' t ∧
      l'.toList = (l.toList ++ ps).eraseDups ∧ Store.Renumbered ps s t
  | [], l, s, numbered, _ => by
    refine ⟨l, s, rfl, numbered, ?_, .refl _ s⟩
    rw [List.append_nil, eraseDups_eq_self numbered.sorted.nodup]
  | p :: ps, l, s, numbered, free => by
    unfold numberParams
    by_cases mem : p ∈ l.toList
    · rw [if_pos (ParamList.has_of_mem numbered.sorted mem (numbered.own.assigned mem))]
      obtain ⟨l', t, eq, numbered', list, renumbered⟩ := numberParams_ok numbered
        fun q hq => free q (List.mem_cons_of_mem p hq)
      refine ⟨l', t, eq, numbered', ?_, renumbered.get, fun h hh => renumbered.frame h fun mem =>
        hh (List.mem_cons_of_mem p mem)⟩
      rw [list, eraseDups_append_cons_of_mem mem]
    · -- what is not listed was detached, so it is taken for missing and gets the next id
      have new := (free p List.mem_cons_self).resolve_left mem
      obtain ⟨added, numbered₁⟩ := numbered.addFresh mem
      rw [if_neg (by rw [ParamList.has_unassigned new]; simp), added]
      simp only
      have list₁ : (⟨l.items.push p⟩ : ParamList).toList = l.toList ++ [p] := by
        simp [IdList.toList]
      obtain ⟨l', t, eq, numbered', list, renumbered⟩ := numberParams_ok numbered₁ (by
        intro q hq
        rw [list₁, List.mem_append, List.mem_singleton]
        by_cases same : p = q
        · exact Or.inl (Or.inr same.symm)
        · rw [Store.id_setId, if_neg same]
          exact (free q (List.mem_cons_of_mem p hq)).imp_left Or.inl)
      refine ⟨l', t, eq, numbered', ?_, ?_⟩
      · rw [list, list₁, List.append_assoc]
        rfl
      · exact (Store.Renumbered.setId List.mem_cons_self s _).trans
          ⟨renumbered.get, fun h hh => renumbered.frame h fun mem =>
            hh (List.mem_cons_of_mem p mem)⟩

/-- **Numbering a space numbers what it meets.** -/
theorem number_ok (sp : Space α) (sk : Sketch α) : ∃ params store,
    sp.number sk = (.ok (), { sp with params }, { sk with store }) ∧ Numbered params store ∧
      params.toList = (sp.met sk).eraseDups ∧
      Store.Renumbered (sp.met sk) sk.store store := by
  have empty : Numbered IdList.empty ((sp.met sk).foldl Store.detach sk.store) :=
    fun i bound => absurd bound (Nat.not_lt_zero i)
  obtain ⟨params, store, eq, numbered, list, renumbered⟩ := numberParams_ok empty
    fun p hp => Or.inr (id_detachAll sk.store hp)
  refine ⟨params, store, ?_, numbered, list, ?_⟩
  · unfold number
    simp only [eq]
  · exact (Store.Renumbered.detachAll _ sk.store fun _ hk => hk).trans renumbered

end Space

end SketchSolver

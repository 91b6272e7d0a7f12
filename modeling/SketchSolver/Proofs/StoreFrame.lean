import SketchSolver.Store

/-!
# What a change of the store leaves alone

Every write to a store goes to one handle, so what a phase of a solve may change is told by a
list of handles. `Within hs s t` says that `t` came from `s` by changing values and scratch of
these alone; ids and symbols are never touched. `Moved hs s t` is the stronger statement that
only values changed, which is all that Newton's method may do.

`Agree hs s t` compares two stores of two runs: they hold the same parameters under these
handles. Changing one handle in both keeps it so (`Agree.modify`), which is why a run that
reads only these handles cannot tell the stores apart.

The three relations are for three kinds of questions. `Within` and `Moved` are about one run,
before and after: they are reflexive and transitive, they grow with the list of handles, and a
loop over handles stays within the list (`Within.foldl`). `Agree` is about two runs side by
side, and a loop that does the same to both keeps them in agreement. A store is a function
from handles as far as these relations see it; how it is kept is nobody's concern, and two
stores that hold the same under all handles are as good as equal.

The lemmas at the beginning are about one write and one read. They are simp lemmas, so that in
a proof a read goes through the writes to other fields without being told.
-/

namespace SketchSolver.Store

variable {α : Type} [Zero α]

/-! ## Reading after one write -/

@[simp] theorem id_setValue (s : Store α) (h k : Handle) (v : α) :
    (s.setValue h v).id k = s.id k := by
  unfold Store.id setValue
  rw [get_modify]
  split
  next e => rw [e]
  next => rfl

@[simp] theorem id_setTag (s : Store α) (h k : Handle) (t : Nat) :
    (s.setTag h t).id k = s.id k := by
  unfold Store.id setTag
  rw [get_modify]
  split
  next e => rw [e]
  next => rfl

@[simp] theorem id_setKnown (s : Store α) (h k : Handle) (b : Bool) :
    (s.setKnown h b).id k = s.id k := by
  unfold Store.id setKnown
  rw [get_modify]
  split
  next e => rw [e]
  next => rfl

theorem id_setId (s : Store α) (h k : Handle) (i : Int) :
    (s.setId h i).id k = if h = k then i else s.id k := by
  unfold Store.id setId
  rw [get_modify]
  split
  next => rfl
  next => rfl

/-- A value is written under one handle. -/
theorem value_setValue (s : Store α) (h k : Handle) (v : α) :
    (s.setValue h v).value k = if h = k then v else s.value k := by
  unfold Store.value setValue
  rw [get_modify]
  split
  next => rfl
  next => rfl

@[simp] theorem value_setValue_self (s : Store α) (h : Handle) (v : α) :
    (s.setValue h v).value h = v := by
  rw [value_setValue, if_pos rfl]

theorem value_setValue_ne (s : Store α) {h k : Handle} (ne : h ≠ k) (v : α) :
    (s.setValue h v).value k = s.value k := by
  rw [value_setValue, if_neg ne]

/-- Settling a parameter is writing one field of one parameter. -/
theorem get_setKnown (s : Store α) (h k : Handle) (b : Bool) :
    (s.setKnown h b).get k = if h = k then { s.get h with known := b } else s.get k :=
  get_modify s h k _

theorem get_setTag (s : Store α) (h k : Handle) (n : Nat) :
    (s.setTag h n).get k = if h = k then { s.get h with tag := n } else s.get k :=
  get_modify s h k _

theorem tag_setTag (s : Store α) (h k : Handle) (n : Nat) :
    (s.setTag h n).tag k = if h = k then n else s.tag k := by
  unfold tag
  rw [get_setTag]
  split
  next => rfl
  next => rfl

theorem tag_setKnown (s : Store α) (h k : Handle) (b : Bool) :
    (s.setKnown h b).tag k = s.tag k := by
  unfold tag
  rw [get_setKnown]
  split
  next eq => rw [eq]
  next => rfl

/-! ## Changing many handles in the same way -/

/-- What a loop does not come to it does not change. -/
theorem get_foldl_modify_absent {f : Param α → Param α} {h : Handle} : ∀ {ps : List Handle}
    (s : Store α), h ∉ ps → (ps.foldl (fun s k => s.modify k f) s).get h = s.get h
  | [], _, _ => rfl
  | p :: ps, s, absent => by
    have ne : ¬ p = h := fun e => absent (e ▸ List.mem_cons_self)
    rw [List.foldl_cons, get_foldl_modify_absent _ fun mem => absent (List.mem_cons_of_mem p mem),
      get_modify, if_neg ne]

/-- A change that does nothing the second time is made once, however often a handle occurs. -/
theorem get_foldl_modify {f : Param α → Param α} (idem : ∀ q, f (f q) = f q) {h : Handle} :
    ∀ {ps : List Handle} (s : Store α), h ∈ ps →
    (ps.foldl (fun s k => s.modify k f) s).get h = f (s.get h)
  | p :: ps, s, mem => by
    rw [List.foldl_cons]
    by_cases later : h ∈ ps
    · rw [get_foldl_modify idem _ later, get_modify]
      split
      next eq => rw [eq, idem]
      next => rfl
    · obtain rfl : h = p := (List.mem_cons.mp mem).resolve_right later
      rw [get_foldl_modify_absent _ later, get_modify, if_pos rfl]

/-! ## Changing no more than some handles -/

/-- `t` is `s` with values and scratch changed under the given handles alone. -/
structure Within (hs : List Handle) (s t : Store α) : Prop where
  id : ∀ h, t.id h = s.id h
  symbol : ∀ h, (t.get h).symbol = (s.get h).symbol
  frame : ∀ h, h ∉ hs → t.get h = s.get h

namespace Within

variable {hs ks : List Handle} {s t u : Store α}

theorem refl (hs : List Handle) (s : Store α) : Within hs s s :=
  ⟨fun _ => rfl, fun _ => rfl, fun _ _ => rfl⟩

theorem trans (h₁ : Within hs s t) (h₂ : Within hs t u) : Within hs s u :=
  ⟨fun h => (h₂.id h).trans (h₁.id h), fun h => (h₂.symbol h).trans (h₁.symbol h),
    fun h hh => (h₂.frame h hh).trans (h₁.frame h hh)⟩

theorem mono (h : Within hs s t) (sub : ∀ k, k ∈ hs → k ∈ ks) : Within ks s t :=
  ⟨h.id, h.symbol, fun k hk => h.frame k fun hk' => hk (sub k hk')⟩

theorem value (h : Within hs s t) {k : Handle} (hk : k ∉ hs) : t.value k = s.value k := by
  unfold Store.value
  rw [h.frame k hk]

/-- One write that keeps the id and the symbol. -/
theorem modify {k : Handle} (hk : k ∈ hs) (s : Store α) {f : Param α → Param α}
    (id : ∀ p, (f p).id = p.id) (symbol : ∀ p, (f p).symbol = p.symbol) :
    Within hs s (s.modify k f) := by
  refine ⟨fun h => ?_, fun h => ?_, fun h hh => ?_⟩
  · unfold Store.id
    rw [get_modify]
    split
    next e => rw [id, e]
    next => rfl
  · rw [get_modify]
    split
    next e => rw [symbol, e]
    next => rfl
  · rw [get_modify, if_neg (show ¬ k = h from fun e => hh (e ▸ hk))]

theorem setValue {k : Handle} (hk : k ∈ hs) (s : Store α) (v : α) :
    Within hs s (s.setValue k v) := modify hk s (fun _ => rfl) fun _ => rfl

theorem setTag {k : Handle} (hk : k ∈ hs) (s : Store α) (n : Nat) :
    Within hs s (s.setTag k n) := modify hk s (fun _ => rfl) fun _ => rfl

theorem setKnown {k : Handle} (hk : k ∈ hs) (s : Store α) (b : Bool) :
    Within hs s (s.setKnown k b) := modify hk s (fun _ => rfl) fun _ => rfl

theorem setRepresentative {k : Handle} (hk : k ∈ hs) (s : Store α) (i : Int) :
    Within hs s (s.setRepresentative k i) := modify hk s (fun _ => rfl) fun _ => rfl

/-- Steps that each stay within the handles stay so together. -/
theorem foldl {γ : Type} {step : Store α → γ → Store α} {xs : List γ}
    (each : ∀ x ∈ xs, ∀ s, Within hs s (step s x)) (s : Store α) :
    Within hs s (xs.foldl step s) := by
  induction xs generalizing s with
  | nil => exact refl hs s
  | cons x xs ih =>
    rw [List.foldl_cons]
    exact (each x List.mem_cons_self s).trans
      (ih (fun y hy => each y (List.mem_cons_of_mem x hy)) _)

end Within

/-! ## Changing values alone -/

/-- `t` is `s` with other values under the given handles. -/
structure Moved (hs : List Handle) (s t : Store α) : Prop where
  get : ∀ h, t.get h = { s.get h with value := t.value h }
  frame : ∀ h, h ∉ hs → t.get h = s.get h

namespace Moved

variable {hs : List Handle} {s t u : Store α}

theorem refl (hs : List Handle) (s : Store α) : Moved hs s s := ⟨fun _ => rfl, fun _ _ => rfl⟩

theorem trans (h₁ : Moved hs s t) (h₂ : Moved hs t u) : Moved hs s u :=
  ⟨fun h => by rw [h₂.get h, h₁.get h], fun h hh => (h₂.frame h hh).trans (h₁.frame h hh)⟩

theorem setValue {k : Handle} (hk : k ∈ hs) (s : Store α) (v : α) :
    Moved hs s (s.setValue k v) := by
  refine ⟨fun h => ?_, fun h hh => ?_⟩
  · rw [value_setValue]
    unfold Store.setValue
    rw [get_modify]
    split
    next e => rw [e]
    next => rfl
  · unfold Store.setValue
    rw [get_modify, if_neg (show ¬ k = h from fun e => hh (e ▸ hk))]

theorem within (h : Moved hs s t) : Within hs s t :=
  ⟨fun k => by unfold Store.id; rw [h.get k], fun k => by rw [h.get k], h.frame⟩

theorem id (h : Moved hs s t) (k : Handle) : t.id k = s.id k := h.within.id k

theorem tag (h : Moved hs s t) (k : Handle) : t.tag k = s.tag k := by
  unfold Store.tag
  rw [h.get k]

theorem known (h : Moved hs s t) (k : Handle) : (t.get k).known = (s.get k).known := by
  rw [h.get k]

theorem value (h : Moved hs s t) {k : Handle} (hk : k ∉ hs) : t.value k = s.value k :=
  h.within.value hk

end Moved

/-! ## Two stores side by side -/

/-- Two stores hold the same parameters under the given handles. -/
def Agree (hs : List Handle) (s t : Store α) : Prop := ∀ h ∈ hs, t.get h = s.get h

namespace Agree

variable {hs : List Handle} {s t : Store α}

theorem id (h : Agree hs s t) {k : Handle} (hk : k ∈ hs) : t.id k = s.id k := by
  unfold Store.id
  rw [h k hk]

theorem tag (h : Agree hs s t) {k : Handle} (hk : k ∈ hs) : t.tag k = s.tag k := by
  unfold Store.tag
  rw [h k hk]

theorem value (h : Agree hs s t) {k : Handle} (hk : k ∈ hs) : t.value k = s.value k := by
  unfold Store.value
  rw [h k hk]

/-- The same change of one handle in both stores. The handle need not be one of those compared. -/
theorem modify (h : Agree hs s t) (k : Handle) (f : Param α → Param α) :
    Agree hs (s.modify k f) (t.modify k f) := by
  intro j hj
  rw [get_modify, get_modify]
  split
  next e => rw [h k (e ▸ hj)]
  next => exact h j hj

/-- Two runs with one outcome and stores that agree. -/
theorem outcomes {β : Type} {r r' : β × Store α} (same : r'.1 = r.1)
    (agree : Agree hs r.2 r'.2) : ∃ b s t, r = (b, s) ∧ r' = (b, t) ∧ Agree hs s t :=
  ⟨r.1, r.2, r'.2, rfl, by rw [← same], agree⟩

theorem outcomes₃ {β γ : Type} {r r' : β × γ × Store α} (same : r'.1 = r.1)
    (same' : r'.2.1 = r.2.1) (agree : Agree hs r.2.2 r'.2.2) :
    ∃ b c s t, r = (b, c, s) ∧ r' = (b, c, t) ∧ Agree hs s t :=
  ⟨r.1, r.2.1, r.2.2, r'.2.2, rfl, by rw [← same, ← same'], agree⟩

end Agree

end SketchSolver.Store

import SketchSolver.Linear.Rank
import SketchSolver.Proofs.Linear.Vectors

/-!
# The rows that count are orthogonal

Over an exact field with an order, what is left of a row is orthogonal to all rows before it
that count (`Resolved`): each projection takes out one component, and does not bring back
those that are gone already, because the rows that count are orthogonal to each other. Such
rows are linearly independent, so no more of them count than a row has entries
(`rank_le_width`).

A row that does not count is left out of the projections after it. What is left of it need not
be zero: with a positive threshold it may be a short vector. Nothing is orthogonal to it, and
`Resolved` does not say so. So the rows that count at a positive threshold may be fewer than
the rank, and never more.

All of this needs a threshold that is not negative. Below zero every row counts, whatever is
left of it (`rank_of_neg`), since a square is not negative; then projections divide by squares
that may be zero, and the count says nothing about independence.

The loop appends what is left of a row to what is left of the rows before, so the invariant is
kept by appending (`Resolved.concat`), and the induction is on the list of rows from its end.
-/

namespace SketchSolver.Linear

variable {K : Type} [Field K] [LinearOrder K] {n : Nat} {row u : List K}
variable {t : K} {e : Residue K} {es : List (Residue K)} {rows : List (List K)}

/-- What is left of some rows of `n` entries: each is orthogonal to those before it that count. -/
structure Resolved (t : K) (n : Nat) (rs : List (Residue K)) : Prop where
  width : ∀ r ∈ rs, r.row.length = n
  square : ∀ r ∈ rs, r.square = dot r.row r.row
  apart : rs.Pairwise fun e r => t < e.square → dot e.row r.row = 0

/-! ## Projecting -/

/-- A projection keeps the length of a row. -/
theorem length_project (wide : e.row.length = n) (hrow : row.length = n) :
    (project t row e).length = n := by
  unfold project
  split
  next => exact hrow
  next => rw [List.length_zipWith, wide, hrow, Nat.min_self]

theorem length_foldl_project : ∀ {es : List (Residue K)} {row : List K},
    (∀ e ∈ es, e.row.length = n) → row.length = n → (es.foldl (project t) row).length = n
  | [], _, _, hrow => hrow
  | e :: es, _, wide, hrow => by
    rw [List.foldl_cons]
    exact length_foldl_project (fun f hf => wide f (List.mem_cons_of_mem e hf))
      (length_project (wide e List.mem_cons_self) hrow)

/-- Projecting subtracts a multiple of a row that counts. -/
theorem toVec_project (counts : t < e.square) (wide : e.row.length = n) (hrow : row.length = n) :
    toVec n (project t row e) = toVec n row - (dot e.row row / e.square) • toVec n e.row := by
  unfold project
  rw [if_neg (not_le.mpr counts)]
  simp only
  generalize dot e.row row / e.square = weight
  rw [← ofFn_toVec hrow, ← ofFn_toVec wide, zipWith_ofFn, toVec_ofFn, toVec_ofFn, toVec_ofFn]
  funext i
  simp only [Pi.sub_apply, Pi.smul_apply, smul_eq_mul, mul_comm]

/-- What a projection does to a product with another row. -/
theorem dot_project (counts : t < e.square) (wide : e.row.length = n) (hrow : row.length = n)
    (hu : u.length = n) :
    dot u (project t row e) = dot u row - dot e.row row / e.square * dot u e.row := by
  rw [dot_eq_dotProduct hu (length_project wide hrow), dot_eq_dotProduct hu hrow,
    dot_eq_dotProduct hu wide, toVec_project counts wide hrow, dotProduct_sub, dotProduct_smul,
    smul_eq_mul]

/-- A row that is orthogonal to another one stays so when rows are taken out that the other one is
orthogonal to. -/
theorem dot_foldl_project : ∀ {es : List (Residue K)} {row : List K},
    (∀ e ∈ es, e.row.length = n) → row.length = n → u.length = n →
    (∀ e ∈ es, t < e.square → dot u e.row = 0) → dot u row = 0 →
    dot u (es.foldl (project t) row) = 0
  | [], _, _, _, _, _, gone => gone
  | e :: es, row, wide, hrow, hu, apart, gone => by
    have wide' := wide e List.mem_cons_self
    rw [List.foldl_cons]
    refine dot_foldl_project (fun f hf => wide f (List.mem_cons_of_mem e hf))
      (length_project wide' hrow) hu (fun f hf => apart f (List.mem_cons_of_mem e hf)) ?_
    by_cases counts : t < e.square
    · rw [dot_project counts wide' hrow hu, apart e List.mem_cons_self counts, gone, mul_zero,
        sub_zero]
    · unfold project
      rw [if_pos (not_lt.mp counts)]
      exact gone

/-- **After all projections a row is orthogonal to every row that counts.** -/
theorem Resolved.orthogonal (nonneg : 0 ≤ t) : ∀ {es : List (Residue K)} {row : List K},
    Resolved t n es → row.length = n →
    ∀ e ∈ es, t < e.square → dot e.row (es.foldl (project t) row) = 0
  | f :: es, row, resolved, hrow, e, he, counts => by
    obtain ⟨ahead, apart⟩ := List.pairwise_cons.mp resolved.apart
    have wide := resolved.width f List.mem_cons_self
    have rest : Resolved t n es := ⟨fun r hr => resolved.width r (List.mem_cons_of_mem f hr),
      fun r hr => resolved.square r (List.mem_cons_of_mem f hr), apart⟩
    rw [List.foldl_cons]
    rcases List.mem_cons.mp he with rfl | later
    · -- the first projection takes this component out, and the later ones leave it out
      refine dot_foldl_project rest.width (length_project wide hrow) wide
        (fun g hg _ => ahead g hg counts) ?_
      have square := resolved.square e List.mem_cons_self
      have pos : e.square ≠ 0 := ne_of_gt (lt_of_le_of_lt nonneg counts)
      rw [dot_project counts wide hrow wide, ← square, div_mul_cancel₀ _ pos, sub_self]
    · exact orthogonal nonneg rest (length_project wide hrow) e later counts

/-! ## All rows -/

/-- The last row is treated after all others. -/
theorem residues_concat (t : K) (rows : List (List K)) (row : List K) :
    residues t (rows ++ [row]) = residues t rows ++ [residue t (residues t rows) row] :=
  List.foldl_concat _ _ _ _

/-- One more row. -/
theorem Resolved.concat (nonneg : 0 ≤ t) (resolved : Resolved t n es) (hrow : row.length = n) :
    Resolved t n (es ++ [residue t es row]) := by
  refine ⟨fun r hr => ?_, fun r hr => ?_, ?_⟩
  · rcases List.mem_append.mp hr with old | last
    · exact resolved.width r old
    · rw [List.mem_singleton.mp last]
      exact length_foldl_project resolved.width hrow
  · rcases List.mem_append.mp hr with old | last
    · exact resolved.square r old
    · rw [List.mem_singleton.mp last]
      rfl
  · refine List.pairwise_append.mpr ⟨resolved.apart, List.pairwise_singleton _ _,
      fun e he r last counts => ?_⟩
    rw [List.mem_singleton.mp last]
    exact resolved.orthogonal nonneg hrow e he counts

/-- What is left of the rows is resolved. -/
theorem resolved_residues (nonneg : 0 ≤ t) (wide : ∀ row ∈ rows, row.length = n) :
    Resolved t n (residues t rows) := by
  induction rows using List.reverseRecOn with
  | nil => exact ⟨fun _ hr => absurd hr List.not_mem_nil, fun _ hr => absurd hr List.not_mem_nil,
      List.Pairwise.nil⟩
  | append_singleton rows row ih =>
    rw [residues_concat]
    exact (ih fun r hr => wide r (List.mem_append_left _ hr)).concat nonneg
      (wide row (List.mem_append_right _ List.mem_cons_self))

/-- The rows that count are linearly independent. -/
theorem Resolved.linearIndependent {rs : List (Residue K)} (nonneg : 0 ≤ t)
    (resolved : Resolved t n rs) :
    LinearIndependent K fun i : Fin (rs.filter fun r => t < r.square).length =>
      toVec n (rs.filter fun r => t < r.square)[i].row := by
  -- the rows that count are pairwise orthogonal, and none is zero, since its square exceeds `t`
  have counted : ∀ i : Fin (rs.filter fun r => t < r.square).length,
      (rs.filter fun r => t < r.square)[i] ∈ rs ∧
        t < (rs.filter fun r => t < r.square)[i].square := by
    intro i
    obtain ⟨mem, counts⟩ := List.mem_filter.mp (List.getElem_mem i.isLt)
    exact ⟨mem, of_decide_eq_true counts⟩
  have apart := List.pairwise_iff_getElem.mp
    (resolved.apart.sublist (List.filter_sublist (p := fun r => t < r.square)))
  refine LinearMap.linearIndependent_of_isOrthoᵢ (B := dotProductBilin K K) ?_ fun i => ?_
  · refine LinearMap.isOrthoᵢ_def.mpr fun i j ne => ?_
    obtain ⟨memi, countsi⟩ := counted i
    obtain ⟨memj, countsj⟩ := counted j
    have widei := resolved.width _ memi
    have widej := resolved.width _ memj
    show toVec n _ ⬝ᵥ toVec n _ = 0
    rw [← dot_eq_dotProduct widei widej]
    rcases Nat.lt_or_gt_of_ne (Fin.val_ne_of_ne ne) with lt | gt
    · exact apart i j i.isLt j.isLt lt countsi
    · rw [dot_comm widei widej]
      exact apart j i j.isLt i.isLt gt countsj
  · obtain ⟨mem, counts⟩ := counted i
    have wide := resolved.width _ mem
    show toVec n _ ⬝ᵥ toVec n _ ≠ 0
    rw [← dot_eq_dotProduct wide wide, ← resolved.square _ mem]
    exact ne_of_gt (lt_of_le_of_lt nonneg counts)

/-- **No more rows count than a row has entries**, for a threshold that is not negative. -/
theorem rank_le_width (nonneg : 0 ≤ t) (wide : ∀ row ∈ rows, row.length = n) :
    rank t rows ≤ n := by
  have independent := (resolved_residues nonneg wide).linearIndependent nonneg
  have card := independent.fintype_card_le_finrank
  rw [Fintype.card_fin, Module.finrank_fin_fun] at card
  unfold rank
  rw [List.countP_eq_length_filter]
  exact card

/-! ## Thresholds below zero -/

/-- Something is left of every row, and its square is what it is compared by. -/
theorem residues_spec (t : K) (rows : List (List K)) :
    (residues t rows).length = rows.length ∧
      ∀ r ∈ residues t rows, r.square = dot r.row r.row := by
  induction rows using List.reverseRecOn with
  | nil => exact ⟨rfl, fun _ hr => absurd hr List.not_mem_nil⟩
  | append_singleton rows row ih =>
    rw [residues_concat]
    refine ⟨by rw [List.length_append, ih.1, List.length_append]; rfl, fun r hr => ?_⟩
    rcases List.mem_append.mp hr with old | last
    · exact ih.2 r old
    · rw [List.mem_singleton.mp last]
      rfl

variable [IsStrictOrderedRing K]

theorem dot_self_nonneg (xs : List K) : 0 ≤ dot xs xs := by
  rw [dot_eq_dotProduct rfl rfl]
  exact Finset.sum_nonneg fun i _ => mul_self_nonneg _

/-- **With a negative threshold every row counts**, even one of which nothing is left. -/
theorem rank_of_neg (neg : t < 0) (rows : List (List K)) : rank t rows = rows.length := by
  obtain ⟨length, squares⟩ := residues_spec t rows
  unfold rank
  rw [← length, List.countP_eq_length]
  intro r hr
  rw [squares r hr]
  exact decide_eq_true (lt_of_lt_of_le neg (dot_self_nonneg r.row))

end SketchSolver.Linear

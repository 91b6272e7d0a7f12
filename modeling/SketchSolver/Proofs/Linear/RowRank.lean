import SketchSolver.Proofs.Linear.Orthogonal

/-!
# The rows that count are independent

A row and what is left of it differ by a combination of what is left of the rows before it
that count (`sub_foldl_project_mem`). So the rows that count, as they are in the matrix, span
the same space as what is left of them (`span_chosen`). What is left is orthogonal, so the
dimension of this space is the number of the rows, and they are independent themselves.

At the threshold zero, nothing is left of a row that does not count, so the rows that count
span all rows, and their number is the rank.

`rests` and `chosen` are the two sets of vectors, and `Accounted` says of a row, together with
what is left of it, where it is in terms of them. It is kept when a row is appended, because
both sets only grow; and it holds of the last row by its projections. The result about spans
is then a comparison of two inclusions.

Rows are told apart by their positions. Two equal rows are two rows, of which the second does
not count, so a statement about the set of rows alone would not be enough: the family of the
rows that count, indexed by their positions, is linearly independent.

That the count does not exceed the rank needs a threshold that is not negative; that it equals
the rank needs the threshold zero. Between the two lies what the solver uses, a small positive
number, under which a system may be refused whose rows are independent by little.
-/

namespace SketchSolver.Linear

variable {K : Type} [Field K] [LinearOrder K] {m n : Nat} {t : K} {row : List K}
variable {rows : List (List K)} {es : List (Residue K)} {v : Fin n → K}

/-- The row at a position counts: the square of what is left of it exceeds the threshold. -/
def Counts (t : K) (rows : List (List K)) (i : Nat) : Prop :=
  ∃ r ∈ (residues t rows)[i]?, t < r.square

instance (t : K) (rows : List (List K)) (i : Nat) : Decidable (Counts t rows i) :=
  inferInstanceAs (Decidable (∃ r ∈ (residues t rows)[i]?, t < r.square))

/-- What is left of the rows that count, as vectors. -/
def rests (t : K) (n : Nat) (es : List (Residue K)) : Set (Fin n → K) :=
  {v | ∃ e ∈ es, t < e.square ∧ toVec n e.row = v}

/-- The rows that count, as vectors. -/
def chosen (t : K) (n : Nat) (rows : List (List K)) : Set (Fin n → K) :=
  {v | ∃ p ∈ rows.zip (residues t rows), t < p.2.square ∧ toVec n p.1 = v}

/-! ## One row -/

theorem rests_subset {fs : List (Residue K)} (sub : ∀ e ∈ es, e ∈ fs) :
    rests t n es ⊆ rests t n fs := by
  rintro v ⟨e, he, counts, rfl⟩
  exact ⟨e, sub e he, counts, rfl⟩

/-- Projecting takes out a combination of the rows that count. -/
theorem sub_foldl_project_mem : ∀ {es : List (Residue K)} {row : List K},
    (∀ e ∈ es, e.row.length = n) → row.length = n →
    toVec n row - toVec n (es.foldl (project t) row) ∈ Submodule.span K (rests t n es) := by
  intro es
  induction es with
  | nil =>
    intro row _ _
    rw [List.foldl_nil, sub_self]
    exact Submodule.zero_mem _
  | cons e es ih =>
    intro row wide hrow
    have widee := wide e List.mem_cons_self
    have rest := ih (fun f hf => wide f (List.mem_cons_of_mem e hf))
      (length_project (t := t) widee hrow)
    have later := Submodule.span_mono (rests_subset fun f hf => List.mem_cons_of_mem e hf) rest
    rw [List.foldl_cons, ← sub_add_sub_cancel _ (toVec n (project t row e))]
    refine Submodule.add_mem _ ?_ later
    by_cases counts : t < e.square
    · rw [toVec_project counts widee hrow, sub_sub_cancel]
      exact Submodule.smul_mem _ _ (Submodule.subset_span ⟨e, List.mem_cons_self, counts, rfl⟩)
    · unfold project
      rw [if_pos (not_lt.mp counts), sub_self]
      exact Submodule.zero_mem _

/-! ## All rows -/

/-- What is known of a row and what is left of it: they differ by a combination of what is left of the
rows that count, and if the row counts, what is left of it is a combination of such rows. -/
structure Accounted (t : K) (n : Nat) (rows : List (List K)) (p : List K × Residue K) : Prop where
  rest : toVec n p.1 - toVec n p.2.row ∈ Submodule.span K (rests t n (residues t rows))
  row : t < p.2.square → toVec n p.2.row ∈ Submodule.span K (chosen t n rows)

/-- The last row is paired with what is left of it. -/
theorem zip_residues_concat (t : K) (rows : List (List K)) (row : List K) :
    (rows ++ [row]).zip (residues t (rows ++ [row])) =
      rows.zip (residues t rows) ++ [(row, residue t (residues t rows) row)] := by
  rw [residues_concat, List.zip_append (residues_spec t rows).1.symm]
  rfl

theorem rests_concat (t : K) (n : Nat) (rows : List (List K)) (row : List K) :
    rests t n (residues t rows) ⊆ rests t n (residues t (rows ++ [row])) := by
  rw [residues_concat]
  exact rests_subset fun e he => List.mem_append_left _ he

theorem chosen_concat (t : K) (n : Nat) (rows : List (List K)) (row : List K) :
    chosen t n rows ⊆ chosen t n (rows ++ [row]) := by
  rintro v ⟨p, hp, counts, rfl⟩
  refine ⟨p, ?_, counts, rfl⟩
  rw [zip_residues_concat]
  exact List.mem_append_left _ hp

/-- Something is left of every row. -/
theorem exists_mem_zip {e : Residue K} (he : e ∈ residues t rows) :
    ∃ row, (row, e) ∈ rows.zip (residues t rows) := by
  have second : (rows.zip (residues t rows)).map Prod.snd = residues t rows :=
    List.map_snd_zip (residues_spec t rows).1.le
  rw [← second] at he
  obtain ⟨p, hp, rfl⟩ := List.mem_map.mp he
  exact ⟨p.1, hp⟩

/-- A row is accounted for whatever comes after it. -/
theorem Accounted.concat {p : List K × Residue K} (old : Accounted t n rows p) (row : List K) :
    Accounted t n (rows ++ [row]) p where
  rest := Submodule.span_mono (rests_concat t n rows row) old.rest
  row counts := Submodule.span_mono (chosen_concat t n rows row) (old.row counts)

/-- One more row, when those before it are accounted for. -/
theorem Accounted.last (nonneg : 0 ≤ t) (wide : ∀ row ∈ rows, row.length = n)
    (hrow : row.length = n) (old : ∀ p ∈ rows.zip (residues t rows), Accounted t n rows p) :
    Accounted t n (rows ++ [row]) (row, residue t (residues t rows) row) := by
  have taken : toVec n row - toVec n (residue t (residues t rows) row).row ∈
      Submodule.span K (rests t n (residues t rows)) :=
    sub_foldl_project_mem (resolved_residues nonneg wide).width hrow
  refine ⟨Submodule.span_mono (rests_concat t n rows row) taken, fun counts => ?_⟩
  have before : Submodule.span K (rests t n (residues t rows)) ≤
      Submodule.span K (chosen t n (rows ++ [row])) := by
    refine Submodule.span_le.mpr ?_
    rintro v ⟨e, he, countse, rfl⟩
    obtain ⟨r, hr⟩ := exists_mem_zip he
    exact ((old (r, e) hr).concat row).row countse
  have here : toVec n row ∈ Submodule.span K (chosen t n (rows ++ [row])) := by
    refine Submodule.subset_span ⟨_, ?_, counts, rfl⟩
    rw [zip_residues_concat]
    exact List.mem_append_right _ List.mem_cons_self
  rw [← sub_sub_cancel (toVec n row) (toVec n _)]
  exact Submodule.sub_mem _ here (before taken)

/-- **Every row is accounted for**, by induction on the rows, of which the last one is new. -/
theorem accounted (nonneg : 0 ≤ t) (wide : ∀ row ∈ rows, row.length = n) :
    ∀ p ∈ rows.zip (residues t rows), Accounted t n rows p := by
  induction rows using List.reverseRecOn with
  | nil => exact fun p hp => absurd hp List.not_mem_nil
  | append_singleton rows row ih =>
    have wideOld : ∀ r ∈ rows, r.length = n := fun r hr => wide r (List.mem_append_left _ hr)
    have hrow : row.length = n := wide row (List.mem_append_right _ List.mem_cons_self)
    intro p hp
    rw [zip_residues_concat] at hp
    rcases List.mem_append.mp hp with before | last
    · exact (ih wideOld p before).concat row
    · obtain rfl := List.mem_singleton.mp last
      exact Accounted.last nonneg wideOld hrow (ih wideOld)

/-- **The rows that count span what is left of them.** -/
theorem span_chosen (nonneg : 0 ≤ t) (wide : ∀ row ∈ rows, row.length = n) :
    Submodule.span K (chosen t n rows) = Submodule.span K (rests t n (residues t rows)) := by
  have accounts := accounted nonneg wide
  refine le_antisymm (Submodule.span_le.mpr ?_) (Submodule.span_le.mpr ?_)
  · rintro v ⟨⟨row, e⟩, hp, counts, rfl⟩
    have left : toVec n e.row ∈ Submodule.span K (rests t n (residues t rows)) :=
      Submodule.subset_span ⟨e, (List.of_mem_zip hp).2, counts, rfl⟩
    rw [← sub_add_cancel (toVec n row) (toVec n e.row)]
    exact Submodule.add_mem _ (accounts _ hp).rest left
  · rintro v ⟨e, he, counts, rfl⟩
    obtain ⟨row, hp⟩ := exists_mem_zip he
    exact (accounts _ hp).row counts

/-- What is left of the rows that count, as a family. -/
theorem range_rests (t : K) (n : Nat) (es : List (Residue K)) :
    Set.range (fun i => toVec n ((es.filter fun r => t < r.square).get i).row) = rests t n es := by
  ext v
  constructor
  · rintro ⟨i, rfl⟩
    obtain ⟨mem, counts⟩ := List.mem_filter.mp (List.get_mem _ i)
    exact ⟨_, mem, of_decide_eq_true counts, rfl⟩
  · rintro ⟨e, he, counts, rfl⟩
    have mem : e ∈ es.filter fun r => t < r.square :=
      List.mem_filter.mpr ⟨he, decide_eq_true counts⟩
    obtain ⟨i, rfl⟩ := List.get_of_mem mem
    exact ⟨i, rfl⟩

/-- The dimension of that space is the number of the rows that count. -/
theorem finrank_chosen (nonneg : 0 ≤ t) (wide : ∀ row ∈ rows, row.length = n) :
    Module.finrank K (Submodule.span K (chosen t n rows)) = rank t rows := by
  have dimension :=
    finrank_span_eq_card ((resolved_residues nonneg wide).linearIndependent nonneg)
  unfold rank
  rw [span_chosen nonneg wide, ← range_rests, List.countP_eq_length_filter]
  exact dimension.trans (Fintype.card_fin _)

/-! ## Matrices -/

section Matrices

variable {A : Matrix (Fin m) (Fin n) K}

omit [Field K] [LinearOrder K] in
/-- A position of the list is a row of the matrix. -/
theorem getElem?_rowsOf (A : Matrix (Fin m) (Fin n) K) (i : Fin m) :
    (rowsOf A)[(i : Nat)]? = some (List.ofFn (A i)) := by
  unfold rowsOf
  rw [List.getElem?_ofFn, dif_pos i.isLt]

/-- The positions at which a test holds are as many as the entries for which it holds. -/
theorem countP_eq_card {β : Type} (p : β → Prop) [DecidablePred p] : ∀ {m : Nat} {xs : List β},
    xs.length = m → xs.countP (p ·) = Fintype.card {i : Fin m // ∃ x ∈ xs[(i : Nat)]?, p x} := by
  intro m
  induction m with
  | zero =>
    intro xs hxs
    rw [List.length_eq_zero_iff.mp hxs]
    rfl
  | succ m ih =>
    intro xs hxs
    cases xs with
    | nil => exact absurd hxs (Nat.succ_ne_zero m).symm
    | cons x xs =>
      rw [List.countP_cons, ih (Nat.succ.inj hxs), Fintype.card_subtype, Fintype.card_subtype,
        Fin.card_filter_univ_succ', add_comm]
      simp

/-- The count is the number of the rows that count. -/
theorem rank_eq_card (A : Matrix (Fin m) (Fin n) K) (t : K) :
    rank t (rowsOf A) = Fintype.card {i : Fin m // Counts t (rowsOf A) i} :=
  countP_eq_card (fun r : Residue K => t < r.square)
    ((residues_spec t (rowsOf A)).1.trans List.length_ofFn)

theorem chosen_rowsOf (A : Matrix (Fin m) (Fin n) K) (t : K) :
    chosen t n (rowsOf A) = Set.range fun i : {i : Fin m // Counts t (rowsOf A) i} => A i := by
  ext v
  constructor
  · rintro ⟨⟨row, r⟩, hp, counts, rfl⟩
    obtain ⟨i, found⟩ := List.mem_iff_getElem?.mp hp
    obtain ⟨foundRow, foundRest⟩ := List.getElem?_zip_eq_some.mp found
    have hi : i < m := by
      obtain ⟨lt, -⟩ := List.getElem?_eq_some_iff.mp foundRow
      exact lt.trans_eq List.length_ofFn
    have same := (getElem?_rowsOf A ⟨i, hi⟩).symm.trans foundRow
    rw [Option.some.injEq] at same
    refine ⟨⟨⟨i, hi⟩, r, foundRest, counts⟩, ?_⟩
    rw [← same, toVec_ofFn]
  · rintro ⟨⟨i, r, found, counts⟩, rfl⟩
    have mem : (List.ofFn (A i), r) ∈ (rowsOf A).zip (residues t (rowsOf A)) :=
      List.mem_of_getElem? (List.getElem?_zip_eq_some.mpr ⟨getElem?_rowsOf A i, found⟩)
    exact ⟨_, mem, counts, toVec_ofFn (A i)⟩

theorem chosen_subset (A : Matrix (Fin m) (Fin n) K) (t : K) :
    chosen t n (rowsOf A) ⊆ Set.range A.row := by
  rw [chosen_rowsOf]
  rintro v ⟨i, rfl⟩
  exact ⟨i, rfl⟩

variable [IsStrictOrderedRing K]

/-- Where the square of what is left is not positive, nothing is left. -/
theorem Resolved.toVec_eq_zero {r : Residue K} (resolved : Resolved t n es) (hr : r ∈ es)
    (none : ¬0 < r.square) : toVec n r.row = 0 := by
  have wide := resolved.width r hr
  have square : dot r.row r.row = 0 :=
    le_antisymm (resolved.square r hr ▸ not_lt.mp none) (dot_self_nonneg r.row)
  rw [dot_eq_dotProduct wide wide] at square
  exact dotProduct_self_eq_zero.mp square

/-- At the threshold zero, the rows that count span all rows. -/
theorem row_mem_span_chosen (A : Matrix (Fin m) (Fin n) K) (i : Fin m) :
    A i ∈ Submodule.span K (chosen 0 n (rowsOf A)) := by
  have wide := length_of_mem_rowsOf (A := A)
  have length : (residues 0 (rowsOf A)).length = m :=
    (residues_spec 0 (rowsOf A)).1.trans List.length_ofFn
  obtain ⟨r, found⟩ : ∃ r, (residues 0 (rowsOf A))[(i : Nat)]? = some r :=
    ⟨_, List.getElem?_eq_getElem (length.symm ▸ i.isLt)⟩
  have hp : (List.ofFn (A i), r) ∈ (rowsOf A).zip (residues 0 (rowsOf A)) :=
    List.mem_of_getElem? (List.getElem?_zip_eq_some.mpr ⟨getElem?_rowsOf A i, found⟩)
  by_cases counts : 0 < r.square
  · exact Submodule.subset_span ⟨_, hp, counts, toVec_ofFn (A i)⟩
  · have none : toVec n r.row = 0 :=
      (resolved_residues le_rfl wide).toVec_eq_zero (List.mem_of_getElem? found) counts
    have rest := (accounted le_rfl wide _ hp).rest
    rw [toVec_ofFn, none, sub_zero, ← span_chosen le_rfl wide] at rest
    exact rest

/-- **The rows that count are independent.** For every threshold that is not negative, the result is
the number of the rows that count, and these are linearly independent; so it is at most the rank
of the matrix, the dimension of the span of its rows, and at most the number of columns. At the
threshold zero it is the rank. -/
theorem rank_counts_independent (A : Matrix (Fin m) (Fin n) K) :
    rank 0 (rowsOf A) = A.rank ∧
    ∀ t : K, 0 ≤ t →
      rank t (rowsOf A) = Fintype.card {i : Fin m // Counts t (rowsOf A) i} ∧
      LinearIndependent K (fun i : {i : Fin m // Counts t (rowsOf A) i} => A i) ∧
      rank t (rowsOf A) ≤ A.rank ∧ rank t (rowsOf A) ≤ n := by
  have wide := length_of_mem_rowsOf (A := A)
  have le_rank (t : K) (nonneg : 0 ≤ t) : rank t (rowsOf A) ≤ A.rank := by
    rw [← finrank_chosen nonneg wide, Matrix.rank_eq_finrank_span_row]
    exact Submodule.finrank_mono (Submodule.span_mono (chosen_subset A t))
  refine ⟨le_antisymm (le_rank 0 le_rfl) ?_, fun t nonneg => ⟨rank_eq_card A t, ?_,
    le_rank t nonneg, rank_le_width nonneg wide⟩⟩
  · rw [← finrank_chosen le_rfl wide, Matrix.rank_eq_finrank_span_row]
    refine Submodule.finrank_mono (Submodule.span_le.mpr ?_)
    rintro v ⟨i, rfl⟩
    exact row_mem_span_chosen A i
  · rw [linearIndependent_iff_card_eq_finrank_span, ← chosen_rowsOf, ← rank_eq_card]
    exact (finrank_chosen nonneg wide).symm

/-- Two rows along one line and a third one. At the threshold one only the longest counts. -/
theorem rank_counts_independent_threeRows :
    let A : Matrix (Fin 3) (Fin 2) ℚ := !![1, 0; 2, 0; 1, 1]
    A.rank = 2 ∧ (0 : ℚ) ≤ 1 ∧ rank 1 (rowsOf A) = 1 ∧ Counts 1 (rowsOf A) 1 ∧
    LinearIndependent ℚ (fun i : {i : Fin 3 // Counts 1 (rowsOf A) i} => A i) ∧
    rank 1 (rowsOf A) ≤ A.rank := by
  intro A
  obtain ⟨exact, below⟩ := rank_counts_independent A
  obtain ⟨-, independent, le, -⟩ := below 1 zero_le_one
  have two : rank 0 (rowsOf A) = 2 := by decide +kernel
  exact ⟨exact.symm.trans two, zero_le_one, by decide +kernel, by decide +kernel, independent, le⟩

end Matrices

end SketchSolver.Linear

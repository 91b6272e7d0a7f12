import Mathlib
import SketchSolver.Linear.LeastNorm

/-!
# Lists as vectors and matrices

The solver keeps a vector as the list of its entries, and a matrix as the list of its rows.
`toVec` reads a list as a vector; `List.ofFn` and `rowsOf` write vectors and matrices as
lists. Through them the operations on lists are those of linear algebra: `dot` is the scalar
product (`dot_ofFn`), and what is done entry by entry stays so (`zipWith_ofFn`).

Lists have no length in their type. A list of the right length and a vector determine each
other (`ofFn_toVec`, `toVec_ofFn`), and for other lists `toVec` pads with zeros or leaves
entries out. So statements about lists carry a hypothesis about the length, and statements
about matrices need none.

The scalar product of lists is a sum from the left that starts from zero. Over a field the
order of summation makes no difference, and from here on nothing refers to it: products of
lists are known by `dot_nil` and `dot_cons`, or as those of vectors.
-/

namespace SketchSolver.Linear

variable {K : Type} [Field K] {m n : Nat} {xs ys zs : List K}

/-- A row of `n` entries as a vector. -/
def toVec (n : Nat) (xs : List K) : Fin n → K := fun i => xs.getD i 0

/-- The rows of a matrix. -/
def rowsOf (A : Matrix (Fin m) (Fin n) K) : List (List K) := List.ofFn fun i => List.ofFn (A i)

@[simp] theorem toVec_ofFn (u : Fin n → K) : toVec n (List.ofFn u) = u := by
  funext i
  have hi : (i : Nat) < (List.ofFn u).length := List.length_ofFn.symm ▸ i.isLt
  unfold toVec
  rw [List.getD_eq_getElem _ 0 hi, List.getElem_ofFn]

/-- A list of the right length is the list of its vector. -/
theorem ofFn_toVec (hx : xs.length = n) : List.ofFn (toVec n xs) = xs := by
  subst hx
  refine List.ext_getElem List.length_ofFn fun i hi hi' => ?_
  rw [List.getElem_ofFn]
  exact List.getD_eq_getElem xs 0 hi'

omit [Field K] in
@[simp] theorem zipWith_ofFn (f : K → K → K) (u v : Fin n → K) :
    List.zipWith f (List.ofFn u) (List.ofFn v) = List.ofFn fun i => f (u i) (v i) :=
  List.ext_getElem (by simp) fun i hi hi' => by simp

@[simp] theorem dot_ofFn (u v : Fin n → K) : dot (List.ofFn u) (List.ofFn v) = u ⬝ᵥ v := by
  unfold dot
  rw [zipWith_ofFn, ← List.sum_eq_foldl, List.sum_ofFn]
  rfl

/-- The product of two lists is that of their vectors. -/
theorem dot_eq_dotProduct (hx : xs.length = n) (hy : ys.length = n) :
    dot xs ys = toVec n xs ⬝ᵥ toVec n ys := by
  rw [← dot_ofFn, ofFn_toVec hx, ofFn_toVec hy]

/-- The order of the factors does not matter. -/
theorem dot_comm (hx : xs.length = n) (hy : ys.length = n) : dot xs ys = dot ys xs := by
  rw [dot_eq_dotProduct hx hy, dot_eq_dotProduct hy hx, dotProduct_comm]

@[simp] theorem dot_nil : dot ([] : List K) xs = 0 := rfl

@[simp] theorem dot_cons (x y : K) : dot (x :: xs) (y :: ys) = x * y + dot xs ys := by
  unfold dot
  rw [List.zipWith_cons_cons, ← List.sum_eq_foldl, ← List.sum_eq_foldl, List.sum_cons]

theorem dot_replicate_zero (hx : xs.length = n) : dot xs (List.replicate n 0) = 0 := by
  rw [← ofFn_toVec hx, ← List.ofFn_const, dot_ofFn]
  exact dotProduct_zero _

/-- The scalar product with a row from which a multiple of another one was subtracted. -/
theorem dot_sub_mul (f : K) (hx : xs.length = n) (hy : ys.length = n) (hz : zs.length = n) :
    dot (List.zipWith (fun x y => x - f * y) xs ys) zs = dot xs zs - f * dot ys zs := by
  rw [← ofFn_toVec hx, ← ofFn_toVec hy, ← ofFn_toVec hz, zipWith_ofFn, dot_ofFn, dot_ofFn,
    dot_ofFn]
  show (toVec n xs - f • toVec n ys) ⬝ᵥ toVec n zs = _
  rw [sub_dotProduct, smul_dotProduct, smul_eq_mul]

omit [Field K] in
/-- The rows of a matrix have an entry for each column. -/
theorem length_of_mem_rowsOf {A : Matrix (Fin m) (Fin n) K} :
    ∀ row ∈ rowsOf A, row.length = n := by
  intro row mem
  obtain ⟨i, rfl⟩ := List.mem_ofFn.mp mem
  exact List.length_ofFn

/-- Rows of one length are the rows of a matrix. -/
theorem rowsOf_toVec {rows : List (List K)} (wide : ∀ row ∈ rows, row.length = n) :
    rowsOf (fun i : Fin rows.length => toVec n rows[i]) = rows := by
  unfold rowsOf
  refine List.ext_getElem List.length_ofFn fun i hi hi' => ?_
  rw [List.getElem_ofFn]
  exact ofFn_toVec (wide _ (List.getElem_mem hi'))

end SketchSolver.Linear

import SketchSolver.Expr.Reading
import SketchSolver.Proofs.Expr.Parsing

/-!
# The names of a formula

A formula has its names in the order of the text, except that the name of a function comes
after its argument. If all are known the formula denotes one expression, and otherwise reading
ends with the first that is not (`resolve_cases`). Together with the grammar this says what
each text is read as (`Expr.parseWith_iff_written`).

Names are resolved in a second pass, after the whole text has been parsed. So a text with a
syntax error fails with that, whatever names it has, and a text without one fails with a name.
Which of several unknown names is told depends on the order of the pass: operands from left to
right, and the argument of a call before the function. `Formula.names` is that order.

A name of a function is known if it is in the table of functions, and a name of a variable if
it is found among the parameters. A variable may have the name of a function; it is a function
only where an opening parenthesis follows, so the two kinds of names cannot be mistaken for
each other, and `Name` keeps them apart.

`Denotes` relates a formula to the expression that it stands for, once all names are known. It
is a function of the formula and of the look-up (`resolve_of_denotes`), stated as a relation
so that it can be compared with what the program computes.
-/

namespace SketchSolver

/-- A name that has to be resolved. -/
inductive Name where
  | ofVariable (x : String)
  | ofFunction (g : String)
  deriving DecidableEq, Repr

/-- The functions that can be called. -/
def functions : List (String × UnaryOp) :=
  [("sqrt", .sqrt), ("sq", .square), ("sin", .sin), ("cos", .cos)]

/-- Whether a name can be resolved. -/
def Name.isKnown (lookup : String → Option Handle) : Name → Bool
  | ofVariable x => (lookup x).isSome
  | ofFunction g => (functions.map Prod.fst).contains g

/-- The error that names a name. -/
def Name.error : Name → ExpressionError
  | ofVariable x => .undefinedVariable x
  | ofFunction g => .undefinedFunction g

/-- The names of a formula from left to right, the argument of a call before its function. -/
def Formula.names : Formula → List Name
  | .number _ => []
  | .variable x => [.ofVariable x]
  | .negate a => a.names
  | .binary _ a b => a.names ++ b.names
  | .call g a => a.names ++ [.ofFunction g]

/-- A formula denotes an expression when its variables stand for the parameters that are looked
up. -/
inductive Denotes (lookup : String → Option Handle) : Formula → Expr Float → Prop where
  | number (v : Float) : Denotes lookup (.number v) (.const v)
  | name {x : String} {p : Handle} (found : lookup x = some p) :
    Denotes lookup (.variable x) (.param p)
  | negate {a : Formula} {e : Expr Float} (operand : Denotes lookup a e) :
    Denotes lookup (.negate a) (.unary .negate e)
  | binary {a b : Formula} {d e : Expr Float} (op : BinaryOp) (left : Denotes lookup a d)
      (right : Denotes lookup b e) : Denotes lookup (.binary op a b) (.binary op d e)
  | call {g : String} {op : UnaryOp} {a : Formula} {e : Expr Float} (known : (g, op) ∈ functions)
      (argument : Denotes lookup a e) : Denotes lookup (.call g a) (.unary op e)

/-- A function is found if the table has it. -/
theorem UnaryOp.ofFunction?_eq_some_iff {g : String} {op : UnaryOp} :
    ofFunction? g = some op ↔ (g, op) ∈ functions := by
  simp only [functions, List.mem_cons, Prod.mk.injEq, List.not_mem_nil, or_false]
  unfold ofFunction?
  grind

theorem Name.isKnown_ofFunction (lookup : String → Option Handle) (g : String) :
    (ofFunction g).isKnown lookup = (UnaryOp.ofFunction? g).isSome := by
  rw [Bool.eq_iff_iff, Option.isSome_iff_exists]
  simp [isKnown, UnaryOp.ofFunction?_eq_some_iff]

namespace Formula

variable {lookup : String → Option Handle} {f : Formula} {e : Expr Float}

/-- A formula is resolved to the expression that it denotes. -/
theorem resolve_of_denotes (denotes : Denotes lookup f e) : f.resolve lookup = .ok e := by
  induction denotes with
  | number v => rfl
  | name found => rw [resolve, found]
  | negate operand ih =>
    rw [resolve, ih]
    rfl
  | binary op left right ihl ihr =>
    rw [resolve, ihl, ihr]
    rfl
  | call known argument ih =>
    rw [resolve, ih]
    dsimp only [bind, Except.bind]
    rw [UnaryOp.ofFunction?_eq_some_iff.mpr known]
    rfl

/-- A name that is not known. -/
def firstUnknown (lookup : String → Option Handle) (f : Formula) : Option Name :=
  f.names.find? fun n => !n.isKnown lookup

/-- There is no first unknown name if all are known. -/
theorem firstUnknown_eq_none_iff :
    f.firstUnknown lookup = none ↔ ∀ n ∈ f.names, n.isKnown lookup = true := by
  simp [firstUnknown, List.find?_eq_none]

/-- **Reading ends with the first name that is not known**, or with an expression that the formula
denotes. -/
theorem resolve_cases (lookup : String → Option Handle) : ∀ f : Formula,
    (∃ e, f.resolve lookup = .ok e ∧ Denotes lookup f e ∧ f.firstUnknown lookup = none) ∨
    ∃ n, f.resolve lookup = .error n.error ∧ f.firstUnknown lookup = some n
  | .number v => Or.inl ⟨_, rfl, .number v, rfl⟩
  | .variable x => by
    rw [resolve]
    cases found : lookup x with
    | some p =>
      exact Or.inl ⟨_, rfl, .name found, by simp [firstUnknown, names, Name.isKnown, found]⟩
    | none =>
      exact Or.inr ⟨.ofVariable x, rfl, by simp [firstUnknown, names, Name.isKnown, found]⟩
  | .negate a => by
    rw [resolve]
    rcases resolve_cases lookup a with ⟨e, eq, denotes, known⟩ | ⟨n, eq, first⟩
    · rw [eq]
      exact Or.inl ⟨_, rfl, .negate denotes, known⟩
    · rw [eq]
      exact Or.inr ⟨n, rfl, first⟩
  | .binary op a b => by
    rw [resolve]
    unfold firstUnknown names
    rw [List.find?_append]
    rcases resolve_cases lookup a with ⟨d, eq, left, known⟩ | ⟨n, eq, first⟩
    · rw [eq, show a.names.find? _ = none from known]
      rcases resolve_cases lookup b with ⟨e, eq, right, known⟩ | ⟨n, eq, first⟩
      · rw [eq]
        exact Or.inl ⟨_, rfl, .binary op left right, known⟩
      · rw [eq]
        exact Or.inr ⟨n, rfl, first⟩
    · rw [eq, show a.names.find? _ = some n from first]
      exact Or.inr ⟨n, rfl, rfl⟩
  | .call g a => by
    rw [resolve]
    unfold firstUnknown names
    rw [List.find?_append]
    rcases resolve_cases lookup a with ⟨d, eq, argument, known⟩ | ⟨n, eq, first⟩
    · rw [eq, show a.names.find? _ = none from known]
      -- the argument is known, so the name of the function decides
      have single : [Name.ofFunction g].find? (fun n => !n.isKnown lookup) =
          if (UnaryOp.ofFunction? g).isSome then none else some (.ofFunction g) := by
        rw [List.find?_singleton, Name.isKnown_ofFunction]
        cases UnaryOp.ofFunction? g <;> rfl
      rw [single]
      dsimp only [bind, Except.bind]
      cases function : UnaryOp.ofFunction? g with
      | some op =>
        exact Or.inl ⟨_, rfl, .call (UnaryOp.ofFunction?_eq_some_iff.mp function) argument, rfl⟩
      | none => exact Or.inr ⟨.ofFunction g, rfl, rfl⟩
    · rw [eq, show a.names.find? _ = some n from first]
      exact Or.inr ⟨n, rfl, rfl⟩

theorem resolve_ok_iff : f.resolve lookup = .ok e ↔ Denotes lookup f e := by
  refine ⟨fun eq => ?_, resolve_of_denotes⟩
  rcases resolve_cases lookup f with ⟨d, eq', denotes, -⟩ | ⟨n, eq', -⟩
  · rw [eq] at eq'
    cases eq'
    exact denotes
  · rw [eq] at eq'
    cases eq'

theorem exists_resolve_iff :
    (∃ e, f.resolve lookup = .ok e) ↔ ∀ n ∈ f.names, n.isKnown lookup = true := by
  rw [← firstUnknown_eq_none_iff]
  rcases resolve_cases lookup f with ⟨d, eq, -, known⟩ | ⟨n, eq, first⟩
  · exact iff_of_true ⟨d, eq⟩ known
  · rw [eq, first]
    simp

theorem resolve_error_iff {n : Name} :
    f.resolve lookup = .error n.error ↔ f.firstUnknown lookup = some n := by
  rcases resolve_cases lookup f with ⟨d, eq, -, known⟩ | ⟨m, eq, first⟩
  · rw [eq, known]
    simp
  · rw [eq, first, Option.some.injEq, Except.error.injEq]
    cases m <;> cases n <;> simp [Name.error]

end Formula

/-- **What a text is read as.** The syntax of a text is right iff the text writes a formula. Then it
is read as the expression that the formula denotes, if all its names are known, and the first name
that is not known is reported otherwise. -/
theorem Expr.parseWith_iff_written (lookup : String → Option Handle) (text : String) :
    (∀ f, Formula.parse text.toList = .ok f ↔ Written text.toList f) ∧
    ((∃ e, parseWith lookup text = .error (.ofSyntax e)) ↔ ¬∃ f, Written text.toList f) ∧
    (∀ e, parseWith lookup text = .ok e ↔ ∃ f, Written text.toList f ∧ Denotes lookup f e) ∧
    ((∃ e, parseWith lookup text = .ok e) ↔
      ∃ f, Written text.toList f ∧ ∀ n ∈ f.names, n.isKnown lookup = true) ∧
    ∀ n : Name, parseWith lookup text = .error n.error ↔
      ∃ f, Written text.toList f ∧ f.names.find? (fun n => !n.isKnown lookup) = some n := by
  refine ⟨fun f => Formula.parse_ok_iff, ?_⟩
  simp only [← Formula.parse_ok_iff, ← Formula.resolve_ok_iff, ← Formula.exists_resolve_iff]
  unfold parseWith
  cases parsed : Formula.parse text.toList with
  | ok f =>
    have noSyntax : ∀ e, f.resolve lookup ≠ .error (.ofSyntax e) := by
      intro e eq
      rcases Formula.resolve_cases lookup f with ⟨d, eq', -⟩ | ⟨n, eq', -⟩
      · rw [eq] at eq'
        cases eq'
      · rw [eq] at eq'
        cases n <;> cases eq'
    simp [noSyntax, Formula.resolve_error_iff, Formula.firstUnknown]
  | error e =>
    have other : ∀ n : Name, ExpressionError.ofSyntax e ≠ n.error := by
      intro n
      cases n <;> exact nofun
    simp [other]

end SketchSolver

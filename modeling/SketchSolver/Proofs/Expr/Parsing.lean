import SketchSolver.Proofs.Expr.Lexing

/-!
# The parser accepts its grammar

`Formula.parse_ok_iff`: a text parses to a formula iff it writes that formula. So no text
writes two formulas.

That the parser has what a rule derives (`reads_of_derives`) is an induction on the
derivation. The functions of the two rules that recur on their left are loops, and a
derivation says from which formula the loop goes on and that it still has fuel. That the rule
derives what its function reads (`sound`) is an induction on the fuel.

The parser descends through its rules with one token to look at, and a function reads on as
long as it can. So it matters what follows, and `barred` lists the symbols that must not: an
opening parenthesis for every rule, since it would make a call of a name, and the operators of
products for an expression, since its last term would take them. Within a derivation neither
happens, because there an operand is followed by an operator of a weaker rule or by a closing
parenthesis, or it ends the text.

The first direction has to show that the fuel suffices, and for this it counts. Six steps are
enough for each lexeme, and a rule further down needs a few less, which is its `slack`; a rule
that recurs on its left hands on what the part to its left did not need. That is the meaning of
`Reads`, which is one statement for all rules.

The second direction is about what was read, with whatever fuel there was, so a failure for
lack of fuel does not come into it. `Sound fuel` has a field for every function of the parser,
since they call each other, and each field is proved from all of them for one unit of fuel
less.

At the end lexing is put in front of both: a text is cut in one way only, and what stands
after the last token has to be white space.
-/

namespace SketchSolver.Formula

variable {ls us tail rest : List Lexeme} {l : Lexeme} {f a b : Formula} {c : Char} {op : BinaryOp}

/-! ## Operators -/

/-- The lexemes do not begin with one of the symbols. -/
def Free (cs : List Char) (ls : List Lexeme) : Prop :=
  ∀ l ∈ ls.head?, ∀ c ∈ cs, l.token ≠ .symbol c

/-- A function takes the operators of a table from lexemes. -/
def Chooses (next? : List Lexeme → Option (BinaryOp × List Lexeme))
    (table : List (Char × BinaryOp)) : Prop :=
  ∀ ls op rest, next? ls = some (op, rest) ↔
    ∃ l c, ls = l :: rest ∧ l.token = .symbol c ∧ (c, op) ∈ table

theorem chooses_additive? : Chooses additive? additive := by
  intro ls op rest
  constructor
  · intro next
    unfold additive? at next
    split at next <;> cases next
    · exact ⟨_, '+', rfl, rfl, by decide⟩
    · exact ⟨_, '-', rfl, rfl, by decide⟩
  · rintro ⟨⟨_, before, start⟩, c, rfl, rfl, known⟩
    simp only [additive, List.mem_cons, Prod.mk.injEq, List.not_mem_nil, or_false] at known
    rcases known with ⟨rfl, rfl⟩ | ⟨rfl, rfl⟩ <;> rfl

theorem chooses_multiplicative? : Chooses multiplicative? multiplicative := by
  intro ls op rest
  constructor
  · intro next
    unfold multiplicative? at next
    split at next <;> cases next
    · exact ⟨_, '*', rfl, rfl, by decide⟩
    · exact ⟨_, '/', rfl, rfl, by decide⟩
  · rintro ⟨⟨_, before, start⟩, c, rfl, rfl, known⟩
    simp only [multiplicative, List.mem_cons, Prod.mk.injEq, List.not_mem_nil, or_false] at known
    rcases known with ⟨rfl, rfl⟩ | ⟨rfl, rfl⟩ <;> rfl

/-- Where no operator of the table comes next, none is taken. -/
theorem Chooses.none_of_free {next? : List Lexeme → Option (BinaryOp × List Lexeme)}
    {table : List (Char × BinaryOp)} (chooses : Chooses next? table)
    (free : Free (table.map Prod.fst) ls) : next? ls = none := by
  refine Option.eq_none_iff_forall_ne_some.mpr ?_
  rintro ⟨op, rest⟩ next
  obtain ⟨l, c, rfl, symbol, known⟩ := (chooses _ _ _).mp next
  exact free l rfl c (List.mem_map.mpr ⟨_, known, rfl⟩) symbol

/-! ## The parser has what the grammar derives -/

/-- What a rule must not be followed by, since its function would read on. -/
def barred : Rule → List Char
  | .expression => ['(', '*', '/']
  | .term | .unary | .primary => ['(']

/-- How much less fuel than six steps for each lexeme the function of a rule needs. -/
def slack : Rule → Nat
  | .expression => 1
  | .term => 2
  | .unary => 3
  | .primary => 4

/-- With enough fuel the function of a rule takes the lexemes and gives the formula. The function of
a rule that repeats goes on from the formula. -/
def Reads (r : Rule) (ls : List Lexeme) (f : Formula) : Prop :=
  ∀ fuel tail, 6 * ls.length ≤ fuel + slack r → Free (barred r) tail →
    match r with
    | .expression => ∃ n, fuel ≤ n + ls.length ∧ expression fuel (ls ++ tail) = moreTerms n f tail
    | .term => ∃ n, fuel ≤ n + ls.length ∧ term fuel (ls ++ tail) = moreFactors n f tail
    | .unary => unary fuel (ls ++ tail) = .ok (f, tail)
    | .primary => primary fuel (ls ++ tail) = .ok (f, tail)

theorem Free.of_subset {cs ds : List Char} (free : Free ds tail) (subset : cs ⊆ ds) :
    Free cs tail :=
  fun l first c known => free l first c (subset known)

/-- Another symbol is in the way of none of these. -/
theorem Free.cons_of_symbol {cs : List Char} {l : Lexeme} (symbol : l.token = .symbol c)
    (other : c ∉ cs) : Free cs (l :: ls) := by
  intro k first d barred same
  obtain rfl := Option.mem_some_iff.mp first
  rw [symbol] at same
  cases same
  exact other barred

namespace Reads

variable {fuel : Nat}

/-- A complete term is read with what is left of its fuel. -/
theorem term_ok (reads : Reads .term ls f) (positive : 0 < ls.length)
    (enough : 6 * ls.length ≤ fuel + 2) (free : Free ['(', '*', '/'] tail) :
    term fuel (ls ++ tail) = .ok (f, tail) := by
  obtain ⟨n, bound, eq⟩ := reads fuel tail enough (free.of_subset (by decide))
  obtain ⟨n, rfl⟩ : ∃ m, n = m + 1 := Nat.exists_eq_succ_of_ne_zero (by omega)
  rw [eq, moreFactors, chooses_multiplicative?.none_of_free (free.of_subset (by decide))]

/-- A complete expression is read with what is left of its fuel. -/
theorem expression_ok (reads : Reads .expression ls f) (positive : 0 < ls.length)
    (enough : 6 * ls.length ≤ fuel + 1) (free : Free ['(', '*', '/', '+', '-'] tail) :
    expression fuel (ls ++ tail) = .ok (f, tail) := by
  obtain ⟨n, bound, eq⟩ := reads fuel tail enough (free.of_subset (by decide))
  obtain ⟨n, rfl⟩ : ∃ m, n = m + 1 := Nat.exists_eq_succ_of_ne_zero (by omega)
  rw [eq, moreTerms, chooses_additive?.none_of_free (free.of_subset (by decide))]

/-- A complete expression is read up to the parenthesis that closes it. -/
theorem parenthesized_ok (reads : Reads .expression ls f) (positive : 0 < ls.length)
    (enough : 6 * ls.length ≤ fuel) (symbol : l.token = .symbol ')') :
    parenthesized (fuel + 1) (ls ++ l :: tail) = .ok (f, tail) := by
  have inner : expression fuel (ls ++ l :: tail) = .ok (f, l :: tail) :=
    reads.expression_ok positive (by omega) (Free.cons_of_symbol symbol (by decide))
  obtain ⟨_, before, start⟩ := l
  obtain rfl := symbol
  rw [parenthesized, inner]
  rfl

theorem number {v : Float} (spelled : l.token = .number v) : Reads .primary [l] (.number v) := by
  intro fuel tail enough free
  simp only [List.length_cons, List.length_nil, slack] at enough
  obtain ⟨n, rfl⟩ : ∃ n, fuel = n + 1 := ⟨fuel - 1, by omega⟩
  obtain ⟨_, before, start⟩ := l
  obtain rfl := spelled
  rfl

/-- A name is read as a variable if no parenthesis follows. -/
theorem name {x : String} (named : l.token = .name x) : Reads .primary [l] (.variable x) := by
  intro fuel tail enough free
  simp only [List.length_cons, List.length_nil, slack] at enough
  obtain ⟨n, rfl⟩ : ∃ n, fuel = n + 1 := ⟨fuel - 1, by omega⟩
  obtain ⟨_, before, start⟩ := l
  obtain rfl := named
  show primary (n + 1) (⟨.name x, before, start⟩ :: tail) = .ok (.variable x, tail)
  rw [primary]
  intro before start rest eq
  rw [eq] at free
  exact free _ rfl '(' List.mem_cons_self rfl

/-- An expression in parentheses is read as that expression. -/
theorem group {o : Lexeme} (reads : Reads .expression ls f) (positive : 0 < ls.length)
    (opens : o.token = .symbol '(') (closes : l.token = .symbol ')') :
    Reads .primary (o :: (ls ++ [l])) f := by
  intro fuel tail enough free
  simp only [List.length_cons, List.length_append, List.length_nil, slack] at enough
  obtain ⟨n, rfl⟩ : ∃ n, fuel = n + 2 := ⟨fuel - 2, by omega⟩
  obtain ⟨_, before, start⟩ := o
  obtain rfl := opens
  simp only [List.cons_append, List.append_assoc, List.nil_append, primary]
  exact reads.parenthesized_ok positive (by omega) closes

/-- A name with an expression in parentheses is read as a call. -/
theorem call {o w : Lexeme} {g : String} (reads : Reads .expression ls a)
    (positive : 0 < ls.length) (named : w.token = .name g) (opens : o.token = .symbol '(')
    (closes : l.token = .symbol ')') : Reads .primary (w :: o :: (ls ++ [l])) (.call g a) := by
  intro fuel tail enough free
  simp only [List.length_cons, List.length_append, List.length_nil, slack] at enough
  obtain ⟨n, rfl⟩ : ∃ n, fuel = n + 2 := ⟨fuel - 2, by omega⟩
  obtain ⟨_, before, start⟩ := o
  obtain rfl := opens
  obtain ⟨_, before', start'⟩ := w
  obtain rfl := named
  simp only [List.cons_append, List.append_assoc, List.nil_append, primary]
  rw [reads.parenthesized_ok positive (by omega) closes]

/-- A primary is read as an operand if it does not begin with a sign. -/
theorem unsigned (reads : Reads .primary ls f) (positive : 0 < ls.length)
    (unsigned : Free ['-'] ls) : Reads .unary ls f := by
  intro fuel tail enough free
  simp only [slack] at enough
  obtain ⟨n, rfl⟩ : ∃ n, fuel = n + 1 := ⟨fuel - 1, by omega⟩
  have operand : primary n (ls ++ tail) = .ok (f, tail) :=
    reads n tail (by simp only [slack]; omega) free
  obtain ⟨k, ks, rfl⟩ := List.exists_cons_of_length_pos positive
  show unary (n + 1) (k :: (ks ++ tail)) = .ok (f, tail)
  rw [unary]
  · exact operand
  · intro before start rest eq
    obtain ⟨rfl, -⟩ := List.cons.inj eq
    exact unsigned _ rfl '-' List.mem_cons_self rfl

/-- A sign in front of an operand negates it. -/
theorem negate (reads : Reads .unary ls a) (sign : l.token = .symbol '-') :
    Reads .unary (l :: ls) (.negate a) := by
  intro fuel tail enough free
  simp only [List.length_cons, slack] at enough
  obtain ⟨n, rfl⟩ : ∃ n, fuel = n + 1 := ⟨fuel - 1, by omega⟩
  have operand : unary n (ls ++ tail) = .ok (a, tail) :=
    reads n tail (by simp only [slack]; omega) free
  obtain ⟨_, before, start⟩ := l
  obtain rfl := sign
  simp only [List.cons_append, unary]
  rw [operand]

theorem factor (reads : Reads .unary ls f) (positive : 0 < ls.length) : Reads .term ls f := by
  intro fuel tail enough free
  simp only [slack] at enough
  obtain ⟨n, rfl⟩ : ∃ n, fuel = n + 1 := ⟨fuel - 1, by omega⟩
  have only : unary n (ls ++ tail) = .ok (f, tail) :=
    reads n tail (by simp only [slack]; omega) free
  exact ⟨n, by omega, by rw [term, only]⟩

/-- A term goes on with an operator of products and an operand. -/
theorem product (left : Reads .term ls a) (right : Reads .unary us b) (positive : 0 < ls.length)
    (symbol : l.token = .symbol c) (known : (c, op) ∈ multiplicative) :
    Reads .term (ls ++ l :: us) (.binary op a b) := by
  intro fuel tail enough free
  simp only [List.length_cons, List.length_append, slack] at enough ⊢
  have next : multiplicative? (l :: (us ++ tail)) = some (op, us ++ tail) :=
    (chooses_multiplicative? _ _ _).mpr ⟨l, c, rfl, symbol, known⟩
  have follows : Free (barred .term) (l :: (us ++ tail)) := by
    refine Free.cons_of_symbol symbol fun other => ?_
    simp only [multiplicative, List.mem_cons, Prod.mk.injEq, List.not_mem_nil, or_false] at known
    rcases known with ⟨rfl, -⟩ | ⟨rfl, -⟩ <;> exact absurd other (by decide)
  obtain ⟨n, bound, eq⟩ := left fuel (l :: (us ++ tail)) (by simp only [slack]; omega) follows
  obtain ⟨n, rfl⟩ : ∃ m, n = m + 1 := ⟨n - 1, by omega⟩
  have operand : unary n (us ++ tail) = .ok (b, tail) :=
    right n tail (by simp only [slack]; omega) free
  refine ⟨n, by omega, ?_⟩
  rw [List.append_assoc, List.cons_append, eq, moreFactors, next]
  dsimp only
  rw [operand]

theorem summand (reads : Reads .term ls f) (positive : 0 < ls.length) :
    Reads .expression ls f := by
  intro fuel tail enough free
  simp only [slack] at enough
  obtain ⟨n, rfl⟩ : ∃ n, fuel = n + 1 := ⟨fuel - 1, by omega⟩
  have only : term n (ls ++ tail) = .ok (f, tail) := reads.term_ok positive (by omega) free
  exact ⟨n, by omega, by rw [expression, only]⟩

/-- An expression goes on with an operator of sums and a term. -/
theorem sum (left : Reads .expression ls a) (right : Reads .term us b) (positive : 0 < ls.length)
    (nonempty : 0 < us.length) (symbol : l.token = .symbol c) (known : (c, op) ∈ additive) :
    Reads .expression (ls ++ l :: us) (.binary op a b) := by
  intro fuel tail enough free
  simp only [List.length_cons, List.length_append, slack] at enough ⊢
  have next : additive? (l :: (us ++ tail)) = some (op, us ++ tail) :=
    (chooses_additive? _ _ _).mpr ⟨l, c, rfl, symbol, known⟩
  have follows : Free (barred .expression) (l :: (us ++ tail)) := by
    refine Free.cons_of_symbol symbol fun other => ?_
    simp only [additive, List.mem_cons, Prod.mk.injEq, List.not_mem_nil, or_false] at known
    rcases known with ⟨rfl, -⟩ | ⟨rfl, -⟩ <;> exact absurd other (by decide)
  obtain ⟨n, bound, eq⟩ := left fuel (l :: (us ++ tail)) (by simp only [slack]; omega) follows
  obtain ⟨n, rfl⟩ : ∃ m, n = m + 1 := ⟨n - 1, by omega⟩
  have operand : term n (us ++ tail) = .ok (b, tail) := right.term_ok nonempty (by omega) free
  refine ⟨n, by omega, ?_⟩
  rw [List.append_assoc, List.cons_append, eq, moreTerms, next]
  dsimp only
  rw [operand]

end Reads

/-- No sign stands in front of a primary. -/
theorem free_of_primary {ts : List Token} (derived : Derives .primary ts f)
    (tokens : ls.map (·.token) = ts) : Free ['-'] ls := by
  rintro l first c sign symbol
  obtain rfl := List.mem_singleton.mp sign
  have head : ts.head? = some (.symbol '-') := by
    rw [← tokens, List.head?_map, Option.mem_def.mp first, Option.map_some, symbol]
  cases derived <;> simp at head

/-- Lexemes of tokens in parentheses. -/
theorem exists_parentheses {ts : List Token}
    (tokens : ls.map (·.token) = .symbol '(' :: (ts ++ [.symbol ')'])) :
    ∃ o inner l, ls = o :: (inner ++ [l]) ∧ o.token = .symbol '(' ∧ l.token = .symbol ')' ∧
      inner.map (·.token) = ts := by
  obtain ⟨o, ks, rfl, opens, more⟩ := List.map_eq_cons_iff.mp tokens
  obtain ⟨inner, ks, rfl, between, closing⟩ := List.map_eq_append_iff.mp more
  obtain ⟨l, ks, rfl, closes, none⟩ := List.map_eq_cons_iff.mp closing
  obtain rfl := List.map_eq_nil_iff.mp none
  exact ⟨o, inner, l, rfl, opens, closes, between⟩

/-- **What a rule derives, its function reads.** -/
theorem reads_of_derives {r : Rule} {ts : List Token} (derived : Derives r ts f) :
    ∀ ls : List Lexeme, ls.map (·.token) = ts → Reads r ls f := by
  -- each rule takes lexemes at all, so every call further down has less to do
  have length {ls : List Lexeme} {r : Rule} {ts : List Token} {f : Formula}
      (tokens : ls.map (·.token) = ts) (derived : Derives r ts f) : 0 < ls.length := by
    rw [← List.length_map (f := Lexeme.token), tokens]
    exact List.length_pos_iff.mpr derived.ne_nil
  induction derived with
  | number v =>
    intro ls tokens
    obtain ⟨l, ks, rfl, spelled, none⟩ := List.map_eq_cons_iff.mp tokens
    obtain rfl := List.map_eq_nil_iff.mp none
    exact .number spelled
  | name x =>
    intro ls tokens
    obtain ⟨l, ks, rfl, named, none⟩ := List.map_eq_cons_iff.mp tokens
    obtain rfl := List.map_eq_nil_iff.mp none
    exact .name named
  | call f argument ih =>
    intro ls tokens
    obtain ⟨w, ks, rfl, named, enclosed⟩ := List.map_eq_cons_iff.mp tokens
    obtain ⟨o, inner, l, rfl, opens, closes, between⟩ := exists_parentheses enclosed
    exact (ih _ between).call (length between argument) named opens closes
  | group inner ih =>
    intro ls tokens
    obtain ⟨o, between, l, rfl, opens, closes, tokens⟩ := exists_parentheses tokens
    exact (ih _ tokens).group (length tokens inner) opens closes
  | unsigned operand ih =>
    intro ls tokens
    exact (ih ls tokens).unsigned (length tokens operand) (free_of_primary operand tokens)
  | negate operand ih =>
    intro ls tokens
    obtain ⟨l, ks, rfl, sign, tokens⟩ := List.map_eq_cons_iff.mp tokens
    exact (ih ks tokens).negate sign
  | factor only ih =>
    intro ls tokens
    exact (ih ls tokens).factor (length tokens only)
  | product known left right ihl ihr =>
    intro ls tokens
    obtain ⟨ls, ks, rfl, tokensl, tokens⟩ := List.map_eq_append_iff.mp tokens
    obtain ⟨l, ks, rfl, symbol, tokensr⟩ := List.map_eq_cons_iff.mp tokens
    exact (ihl ls tokensl).product (ihr ks tokensr) (length tokensl left) symbol known
  | summand only ih =>
    intro ls tokens
    exact (ih ls tokens).summand (length tokens only)
  | sum known left right ihl ihr =>
    intro ls tokens
    obtain ⟨ls, ks, rfl, tokensl, tokens⟩ := List.map_eq_append_iff.mp tokens
    obtain ⟨l, ks, rfl, symbol, tokensr⟩ := List.map_eq_cons_iff.mp tokens
    exact (ihl ls tokensl).sum (ihr ks tokensr) (length tokensl left) (length tokensr right)
      symbol known

/-! ## The grammar derives what the parser has -/

/-- The first of the lexemes derive the formula, and the others are left. -/
def Splits (r : Rule) (ls : List Lexeme) (f : Formula) (rest : List Lexeme) : Prop :=
  ∃ read, ls = read ++ rest ∧ Derives r (read.map (·.token)) f

/-- The first of the lexemes continue what derives a formula to what derives another one. -/
def Continues (r : Rule) (a : Formula) (ls : List Lexeme) (f : Formula) (rest : List Lexeme) :
    Prop :=
  ∀ ts, Derives r ts a → ∃ read, ls = read ++ rest ∧ Derives r (ts ++ read.map (·.token)) f

/-- With this fuel, whatever the functions of the parser read is derived. -/
structure Sound (fuel : Nat) : Prop where
  expression : ∀ ls f rest, expression fuel ls = .ok (f, rest) → Splits .expression ls f rest
  moreTerms : ∀ a ls f rest, moreTerms fuel a ls = .ok (f, rest) →
    Continues .expression a ls f rest
  term : ∀ ls f rest, term fuel ls = .ok (f, rest) → Splits .term ls f rest
  moreFactors : ∀ a ls f rest, moreFactors fuel a ls = .ok (f, rest) → Continues .term a ls f rest
  unary : ∀ ls f rest, unary fuel ls = .ok (f, rest) → Splits .unary ls f rest
  primary : ∀ ls f rest, primary fuel ls = .ok (f, rest) → Splits .primary ls f rest
  parenthesized : ∀ ls f rest, parenthesized fuel ls = .ok (f, rest) →
    ∃ l, l.token = .symbol ')' ∧ Splits .expression ls f (l :: rest)

/-- A left operand and what continues it. -/
theorem Splits.continued {r s : Rule} (first : Splits s ls a tail)
    (lift : ∀ {ts}, Derives s ts a → Derives r ts a) (more : Continues r a tail f rest) :
    Splits r ls f rest := by
  obtain ⟨read, rfl, derived⟩ := first
  obtain ⟨others, rfl, all⟩ := more _ (lift derived)
  exact ⟨read ++ others, (List.append_assoc ..).symm, by rwa [List.map_append]⟩

theorem Continues.refl {r : Rule} : Continues r a ls a ls :=
  fun ts derived => ⟨[], rfl, by simpa using derived⟩

/-- An operator, its right operand, and what continues the result. -/
theorem Continues.step {r s : Rule} (symbol : l.token = .symbol c) (right : Splits s ls b tail)
    (join : ∀ {ts us}, Derives r ts a → Derives s us b →
      Derives r (ts ++ .symbol c :: us) (.binary op a b))
    (more : Continues r (.binary op a b) tail f rest) : Continues r a (l :: ls) f rest := by
  intro ts left
  obtain ⟨read, rfl, derived⟩ := right
  obtain ⟨others, rfl, all⟩ := more _ (join left derived)
  refine ⟨l :: (read ++ others), by simp, ?_⟩
  simpa [symbol] using all

/-- A symbol that was expected and found is the next lexeme. -/
theorem exists_of_expect {c : Char} (next : expect c ls = .ok rest) :
    ∃ l, ls = l :: rest ∧ l.token = .symbol c := by
  unfold expect at next
  split at next
  next d before start r =>
    split at next
    next same =>
      cases next
      exact ⟨_, rfl, by rw [same]⟩
    next => cases next
  next => cases next

namespace Sound

variable {fuel : Nat}

theorem zero : Sound 0 where
  expression := by simp [Formula.expression]
  moreTerms := by simp [Formula.moreTerms]
  term := by simp [Formula.term]
  moreFactors := by simp [Formula.moreFactors]
  unary := by simp [Formula.unary]
  primary := by simp [Formula.primary]
  parenthesized := by simp [Formula.parenthesized]

/-- An expression is a term and what continues it. -/
theorem expression_step (sound : Sound fuel)
    (eq : Formula.expression (fuel + 1) ls = .ok (f, rest)) : Splits .expression ls f rest := by
  rw [Formula.expression] at eq
  split at eq
  next a tail first =>
    exact (sound.term _ _ _ first).continued .summand (sound.moreTerms _ _ _ _ eq)
  next => cases eq

/-- A sum goes on with one more term, or ends. -/
theorem moreTerms_step (sound : Sound fuel)
    (eq : Formula.moreTerms (fuel + 1) a ls = .ok (f, rest)) :
    Continues .expression a ls f rest := by
  rw [Formula.moreTerms] at eq
  split at eq
  next op after next =>
    obtain ⟨l, c, rfl, symbol, known⟩ := (chooses_additive? _ _ _).mp next
    split at eq
    next b tail operand =>
      exact .step symbol (sound.term _ _ _ operand) (.sum known) (sound.moreTerms _ _ _ _ eq)
    next => cases eq
  next =>
    cases eq
    exact .refl

/-- A term is an operand and what continues it. -/
theorem term_step (sound : Sound fuel) (eq : Formula.term (fuel + 1) ls = .ok (f, rest)) :
    Splits .term ls f rest := by
  rw [Formula.term] at eq
  split at eq
  next a tail first =>
    exact (sound.unary _ _ _ first).continued .factor (sound.moreFactors _ _ _ _ eq)
  next => cases eq

/-- A product goes on with one more operand, or ends. -/
theorem moreFactors_step (sound : Sound fuel)
    (eq : Formula.moreFactors (fuel + 1) a ls = .ok (f, rest)) : Continues .term a ls f rest := by
  rw [Formula.moreFactors] at eq
  split at eq
  next op after next =>
    obtain ⟨l, c, rfl, symbol, known⟩ := (chooses_multiplicative? _ _ _).mp next
    split at eq
    next b tail operand =>
      exact .step symbol (sound.unary _ _ _ operand) (.product known) (sound.moreFactors _ _ _ _ eq)
    next => cases eq
  next =>
    cases eq
    exact .refl

/-- An operand is a sign with an operand, or a primary. -/
theorem unary_step (sound : Sound fuel) (eq : Formula.unary (fuel + 1) ls = .ok (f, rest)) :
    Splits .unary ls f rest := by
  unfold Formula.unary at eq
  split at eq
  next before start after =>
    split at eq
    next a tail operand =>
      cases eq
      obtain ⟨read, rfl, derived⟩ := sound.unary _ _ _ operand
      exact ⟨⟨.symbol '-', before, start⟩ :: read, rfl, .negate derived⟩
    next => cases eq
  next =>
    obtain ⟨read, rfl, derived⟩ := sound.primary _ _ _ eq
    exact ⟨read, rfl, .unsigned derived⟩

/-- An expression in parentheses ends with the closing one. -/
theorem parenthesized_step (sound : Sound fuel)
    (eq : Formula.parenthesized (fuel + 1) ls = .ok (f, rest)) :
    ∃ l, l.token = .symbol ')' ∧ Splits .expression ls f (l :: rest) := by
  rw [Formula.parenthesized] at eq
  split at eq
  next a tail inner =>
    split at eq
    next after closing =>
      cases eq
      obtain ⟨l, rfl, closes⟩ := exists_of_expect closing
      exact ⟨l, closes, sound.expression _ _ _ inner⟩
    next => cases eq
  next => cases eq

/-- A primary is a number, a name, a call or an expression in parentheses. -/
theorem primary_step (sound : Sound fuel) (eq : Formula.primary (fuel + 1) ls = .ok (f, rest)) :
    Splits .primary ls f rest := by
  unfold Formula.primary at eq
  split at eq
  next v before start after =>
    cases eq
    exact ⟨[_], rfl, .number v⟩
  next => cases eq
  next => cases eq
  next g before start before' start' after =>
    split at eq
    next a tail argument =>
      cases eq
      obtain ⟨l, closes, read, rfl, derived⟩ := sound.parenthesized _ _ _ argument
      refine ⟨⟨.name g, before, start⟩ :: ⟨.symbol '(', before', start'⟩ :: (read ++ [l]), ?_, ?_⟩
      · simp
      · simpa [closes] using Derives.call g derived
    next => cases eq
  next x before start after single =>
    cases eq
    exact ⟨[_], rfl, .name x⟩
  next before start after =>
    obtain ⟨l, closes, read, rfl, derived⟩ := sound.parenthesized _ _ _ eq
    refine ⟨⟨.symbol '(', before, start⟩ :: (read ++ [l]), by simp, ?_⟩
    simpa [closes] using Derives.group derived
  next => cases eq

end Sound

/-- **What the functions of the parser read, their rules derive.** -/
theorem sound (fuel : Nat) : Sound fuel := by
  induction fuel with
  | zero => exact .zero
  | succ fuel ih =>
    exact {
      expression := fun _ _ _ eq => ih.expression_step eq
      moreTerms := fun _ _ _ _ eq => ih.moreTerms_step eq
      term := fun _ _ _ eq => ih.term_step eq
      moreFactors := fun _ _ _ _ eq => ih.moreFactors_step eq
      unary := fun _ _ _ eq => ih.unary_step eq
      primary := fun _ _ _ eq => ih.primary_step eq
      parenthesized := fun _ _ _ eq => ih.parenthesized_step eq }

/-! ## Texts -/

/-- Nothing that the grammar can use lets the parser read on. -/
theorem free_of_ended {cs : List Char} (ended : Token.Ended tail) (known : cs ⊆ Token.symbols) :
    Free cs tail := by
  intro l first c hc symbol
  refine ended.unusable l first ?_
  rw [symbol]
  exact known hc

/-- **A text parses to a formula iff it writes that formula.** -/
theorem parse_ok_iff {text : List Char} : parse text = .ok f ↔ Written text f := by
  unfold parse
  constructor
  · intro eq
    dsimp only at eq
    split at eq
    next a rest read =>
      split at eq
      next blank =>
        cases eq
        -- what was used derives the formula, so it is cut as the grammar cuts
        obtain ⟨used, cut, derived⟩ := (sound _).expression _ _ _ read
        refine ⟨used.map (·.token), Token.lexed_of_lexWith le_rfl cut ?_ blank, derived⟩
        exact fun l hl => derived.usable _ (List.mem_map_of_mem hl)
      next => cases eq
    next => cases eq
  · rintro ⟨ts, lexed, derived⟩
    obtain ⟨ls, tail, cut, tokens, ended⟩ :=
      Token.exists_lexWith_of_lexed lexed derived.isChain le_rfl
    have read :
        expression (enoughFuel (Token.lex text).length) (Token.lex text) = .ok (f, tail) := by
      rw [Token.lex, cut]
      refine (reads_of_derives derived ls tokens).expression_ok ?_ ?_
        (free_of_ended ended (by decide))
      · rw [← List.length_map (f := Lexeme.token), tokens]
        exact List.length_pos_iff.mpr derived.ne_nil
      -- the fuel is counted for all lexemes, of which the formula uses the first
      · simp only [enoughFuel, List.length_append]
        omega
    dsimp only
    rw [read]
    dsimp only
    rw [if_pos ended.blank]

/-- A sign binds before a product, and operators of one kind associate to the left. -/
example : parse "-a * b - c - sq(d)\t\u00a0".toList =
    .ok (.binary .minus
      (.binary .minus (.binary .times (.negate (.variable "a")) (.variable "b")) (.variable "c"))
      (.call "sq" (.variable "d"))) := by
  cbv

end SketchSolver.Formula

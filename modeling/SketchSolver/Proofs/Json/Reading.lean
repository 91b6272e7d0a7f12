import SketchSolver.Proofs.Expr.Lexing
import SketchSolver.Proofs.Json.Grammar

/-!
# Every JSON text is read

The reader takes from the front of a text what the grammar writes there and stops behind it,
whatever comes next (`Node.reads_of_written`); only behind a number the next character must
not go on with it. With fuel for twice the length of the text the reader never runs out. So a
text that writes a value is read as that value (`read?_of_writes`).

The converse is not claimed. The reader might accept more than the grammar, and what it does
with such texts is not said here; whatever a text writes according to the grammar, it is read
so, and for that reason it writes one value only.

The reader has functions for a value, for elements and for members that call each other with
one unit of fuel less, and the statement is one for all parts of a text, `Node.Reads`. What a
function takes is what a derivation says that the part consists of. Since the rules put white
space around an element and the reader skips it in front of a value, each function is first
shown not to notice white space in front (`value?_skip`, `items?_skip`, `members?_skip`).

Fuel is counted in characters: every call that goes down one level has consumed a bracket, a
comma or a key before, and a value is never empty (`Number.Spelled.length_pos`). Twice the
length leaves room for the calls that consume nothing.

Behind a number there must be no digit, no point and no exponent mark, which is `Ends`. In a
text there is a comma, a bracket, white space or nothing.
-/

namespace SketchSolver.Json

variable {cs rest gap : List Char}

/-! ## White space -/

theorem skip_append (blank : Blank gap) : skip (gap ++ cs) = skip cs := by
  unfold skip
  exact List.dropWhile_append_of_pos blank

theorem skip_cons {c : Char} (visible : isSpace c = false) : skip (c :: cs) = c :: cs := by
  unfold skip
  rw [List.dropWhile_cons_of_neg (by rw [visible]; exact Bool.false_ne_true)]

theorem skip_skip : skip (skip cs) = skip cs := by
  unfold skip
  exact List.dropWhile_idempotent _ cs

/-! ## Strings -/

theorem hexUnit?_of_digits {a b c d : Char} {w x y z : Nat} (first : hexDigit? a = some w)
    (second : hexDigit? b = some x) (third : hexDigit? c = some y)
    (fourth : hexDigit? d = some z) :
    hexUnit? (a :: b :: c :: d :: rest) = some (((w * 16 + x) * 16 + y) * 16 + z, rest) := by
  simp only [hexUnit?, first, second, third, fourth]
  rfl

/-- One piece of a string. -/
theorem pieces?_piece {p : Piece} {ps : List Piece} {word r : List Char} {fuel : Nat}
    (spelled : p.Spelled word) (more : pieces? fuel cs = some (ps, r)) :
    pieces? (fuel + 1) (word ++ cs) = some (p :: ps, r) := by
  cases spelled with
  | @plain c printable notQuote notEscape =>
    rw [List.singleton_append, pieces?, if_neg (Nat.not_lt.mpr printable), more]
    · rfl
    · exact notQuote
    · exact fun _ escape _ => notEscape escape
    · exact fun _ _ escape _ => notEscape escape
  | @short e c known =>
    have other : e ≠ 'u' := by
      rintro rfl
      cases known
    show pieces? (fuel + 1) ('\\' :: e :: cs) = _
    rw [pieces?, known, Option.bind_eq_bind, Option.bind_some, more]
    · rfl
    · exact other
  | unit first second third fourth =>
    show pieces? (fuel + 1) ('\\' :: 'u' :: _ :: _ :: _ :: _ :: cs) = _
    rw [pieces?, hexUnit?_of_digits first second third fourth, Option.bind_eq_bind,
      Option.bind_some]
    dsimp only
    rw [more]
    rfl

theorem Piece.Spelled.length_pos {p : Piece} {word : List Char} (spelled : p.Spelled word) :
    0 < word.length := by
  cases spelled <;> exact Nat.succ_pos _

/-- Each piece takes a character at least, so the fuel lasts to the closing quote. -/
theorem pieces?_of_spelling {ps : List Piece} (spelling : Spelling ps cs) {fuel : Nat}
    (enough : cs.length < fuel) : pieces? fuel (cs ++ '"' :: rest) = some (ps, rest) := by
  induction spelling generalizing fuel with
  | nil =>
    obtain ⟨fuel, rfl⟩ := Nat.exists_eq_add_one.mpr enough
    rfl
  | cons first more ih =>
    obtain ⟨fuel, rfl⟩ := Nat.exists_eq_add_one.mpr (Nat.zero_lt_of_lt enough)
    have := first.length_pos
    rw [List.length_append] at enough
    rw [List.append_assoc]
    exact pieces?_piece first (ih (by omega))

theorem string?_of_spelling {ps : List Piece} (spelling : Spelling ps cs) :
    string? (cs ++ '"' :: rest) = some (textOf ps, rest) := by
  unfold string?
  rw [pieces?_of_spelling spelling (by rw [List.length_append]; omega)]
  rfl

/-! ## Numbers -/

/-- Nothing that could go on with a number follows. -/
def Ends (rest : List Char) : Prop :=
  ∀ c ∈ rest.head?, c.isDigit = false ∧ c ≠ '.' ∧ c ≠ 'e' ∧ c ≠ 'E'

theorem head_of_digits {ds : List Char} {c : Char} (digits : Digits ds)
    (first : c ∈ (ds ++ rest).head?) : c.isDigit = true := by
  obtain ⟨d, ds, rfl⟩ := List.exists_cons_of_ne_nil digits.1
  cases first
  exact digits.2 c List.mem_cons_self

/-- Digits are taken up to the last one. -/
theorem digits?_of_digits {ds : List Char} (digits : Digits ds)
    (ends : ∀ c ∈ rest.head?, c.isDigit = false) : digits? (ds ++ rest) = some (ds, rest) := by
  unfold digits?
  rw [span_append digits.2 ends]
  cases ds with
  | nil => exact absurd rfl digits.1
  | cons c ds => rfl

/-- A fraction is taken if there is one. -/
theorem fraction?_of_fraction {fraction : Option (List Char)} {f : List Char}
    (places : Fraction fraction f) (ends : ∀ c ∈ rest.head?, c.isDigit = false ∧ c ≠ '.') :
    fraction? (f ++ rest) = some (fraction, rest) := by
  cases places with
  | absent =>
    rw [List.nil_append]
    unfold fraction?
    split
    next => exact absurd rfl (ends '.' rfl).2
    next => rfl
  | places digits =>
    rw [List.cons_append, fraction?, digits?_of_digits digits fun c mem => (ends c mem).1]
    rfl

/-- An exponent is taken if there is one. -/
theorem exponent?_of_power {exponent : Option (Bool × List Char)} {e : List Char}
    (power : Power exponent e) (ends : Ends rest) :
    exponent? (e ++ rest) = some (exponent, rest) := by
  cases power with
  | absent =>
    cases rest with
    | nil => rfl
    | cons c rest =>
      obtain ⟨-, -, notSmall, notLarge⟩ := ends c rfl
      refine if_neg ?_
      simp only [Bool.or_eq_true, beq_iff_eq, notSmall, notLarge, or_self, not_false_eq_true]
  | @marked mark negative sign ds isMark signed digits =>
    have marked : (mark == 'e' || mark == 'E') = true := by simpa using isMark
    have read := digits?_of_digits digits fun c mem => (ends c mem).1
    rw [List.cons_append, List.append_assoc]
    refine (if_pos marked).trans ?_
    cases signed with
    | plus | minus => exact congrArg (Option.map fun p => (some (_, p.1), p.2)) read
    | none =>
      rw [List.nil_append]
      split
      -- a digit is no sign
      next eq => cases head_of_digits digits (by rw [eq]; rfl)
      next eq => cases head_of_digits digits (by rw [eq]; rfl)
      next => rw [read]; rfl

/-- What follows the digits before the point does not go on with them. -/
theorem Power.head {exponent : Option (Bool × List Char)} {e : List Char}
    (power : Power exponent e) (ends : Ends rest) :
    ∀ c ∈ (e ++ rest).head?, c.isDigit = false ∧ c ≠ '.' := by
  cases power with
  | absent => exact fun c mem => ⟨(ends c mem).1, (ends c mem).2.1⟩
  | marked isMark =>
    rintro c ⟨⟩
    rcases isMark with rfl | rfl <;> decide

theorem number?_of_spelled (negative : Bool) {whole f e : List Char}
    {fraction : Option (List Char)} {exponent : Option (Bool × List Char)} (digits : Whole whole)
    (places : Fraction fraction f) (power : Power exponent e) (ends : Ends rest) :
    number? negative (whole ++ (f ++ (e ++ rest))) =
      some (⟨negative, whole, fraction, exponent⟩, rest) := by
  have behind := power.head ends
  have point : ∀ c ∈ (f ++ (e ++ rest)).head?, c.isDigit = false := by
    cases places with
    | absent => exact fun c mem => (behind c mem).1
    | places => rintro c ⟨⟩; rfl
  have first : ¬(whole.length ≠ 1 && whole.head? == some '0') = true := by
    simp only [ne_eq, Bool.and_eq_true, decide_eq_true_eq, beq_iff_eq, not_and]
    exact fun long zero => long (digits.first zero)
  unfold number?
  rw [digits?_of_digits digits.digits point]
  dsimp only [Option.bind_eq_bind, Option.bind_some]
  rw [if_neg first, fraction?_of_fraction places behind]
  dsimp only [Option.bind_some]
  rw [exponent?_of_power power ends]
  rfl

/-! ## Values -/

theorem value?_skip {fuel : Nat} : value? fuel (skip cs) = value? fuel cs := by
  cases fuel with
  | zero => rfl
  | succ fuel => rw [value?, value?, skip_skip]

theorem value?_append {fuel : Nat} (blank : Blank gap) :
    value? fuel (gap ++ cs) = value? fuel cs := by
  rw [← value?_skip, skip_append blank, value?_skip]

theorem items?_skip {fuel : Nat} : items? fuel (skip cs) = items? fuel cs := by
  cases fuel with
  | zero => rfl
  | succ fuel => rw [items?, items?, value?_skip]

theorem members?_skip {fuel : Nat} : members? fuel (skip cs) = members? fuel cs := by
  cases fuel with
  | zero => rfl
  | succ fuel => rw [members?, members?, skip_skip]

/-- What begins with a digit is a number. -/
theorem value?_of_isDigit {fuel : Nat} {c : Char} (digit : c.isDigit = true) :
    value? (fuel + 1) (c :: cs) = (number? false (c :: cs)).map fun (n, r) => (.number n, r) := by
  have visible : isSpace c = false := by
    refine Bool.eq_false_iff.mpr fun space => ?_
    simp only [isSpace, Bool.or_eq_true, beq_iff_eq] at space
    rcases space with ((rfl | rfl) | rfl) | rfl <;> cases digit
  rw [value?, skip_cons visible]
  split
  case h_8 => rfl
  all_goals
    next eq =>
      cases eq
      cases digit

theorem Number.Spelled.length_pos {n : Number} (spelled : n.Spelled cs) : 0 < cs.length := by
  obtain ⟨digits, -, -⟩ := spelled
  have := List.length_pos_of_ne_nil digits.digits.1
  simp only [List.length_append]
  omega

theorem value?_of_spelled {n : Number} {fuel : Nat} (spelled : n.Spelled cs) (ends : Ends rest) :
    value? (fuel + 1) (cs ++ rest) = some (.number n, rest) := by
  obtain @⟨negative, whole, f, e, fraction, exponent, digits, places, power⟩ := spelled
  have read := number?_of_spelled negative digits places power ends
  simp only [List.append_assoc]
  cases negative with
  | true =>
    show (number? true (whole ++ (f ++ (e ++ rest)))).map _ = _
    rw [read]
    rfl
  | false =>
    rw [show minus false = [] from rfl, List.nil_append]
    obtain ⟨c, whole, rfl⟩ := List.exists_cons_of_ne_nil digits.digits.1
    rw [List.cons_append] at read ⊢
    rw [value?_of_isDigit (digits.digits.2 c List.mem_cons_self), read]
    rfl

theorem value?_bracket {fuel : Nat} : value? (fuel + 1) ('[' :: cs) =
    match skip cs with
    | ']' :: r => some (.array [], r)
    | r => (items? fuel r).map fun (vs, r) => (.array vs, r) := rfl

theorem value?_brace {fuel : Nat} : value? (fuel + 1) ('\x7b' :: cs) =
    match skip cs with
    | '\x7d' :: r => some (.object [], r)
    | r => (members? fuel r).map fun (ms, r) => (.object ms, r) := rfl

/-- Elements between brackets are an array. -/
theorem value?_array {fuel : Nat} {vs : List Value} {r : List Char}
    (read : items? fuel cs = some (vs, r)) :
    value? (fuel + 1) ('[' :: cs) = some (.array vs, r) := by
  rw [← items?_skip] at read
  rw [value?_bracket]
  split
  next closed =>
    -- no element starts with a closing bracket
    rw [closed] at read
    rcases fuel with - | - | fuel <;> cases read
  next => rw [read]; rfl

/-- Members between braces are an object. -/
theorem value?_object {fuel : Nat} {ms : List (Text × Value)} {r : List Char}
    (read : members? fuel cs = some (ms, r)) :
    value? (fuel + 1) ('\x7b' :: cs) = some (.object ms, r) := by
  rw [← members?_skip] at read
  rw [value?_brace]
  split
  next closed =>
    rw [closed] at read
    cases fuel <;> cases read
  next => rw [read]; rfl

/-- What the reader does with a part of a text, given fuel for twice its length. -/
def Node.Reads : Node → List Char → Prop
  | .value v, cs => ∀ fuel rest, 2 * cs.length ≤ fuel → Ends rest →
    value? fuel (cs ++ rest) = some (v, rest)
  | .element v, cs => ∀ fuel rest, 2 * cs.length ≤ fuel → Ends rest →
    ∃ r, value? fuel (cs ++ rest) = some (v, r) ∧ skip r = skip rest
  | .elements vs, cs => ∀ fuel rest, 2 * cs.length < fuel →
    items? fuel (cs ++ ']' :: rest) = some (vs, rest)
  | .members ms, cs => ∀ fuel rest, 2 * cs.length < fuel →
    members? fuel (cs ++ '\x7d' :: rest) = some (ms, rest)

/-- Only white space and what ends a number follow a value. -/
theorem ends_append (blank : Blank gap) (ends : Ends rest) : Ends (gap ++ rest) := by
  cases gap with
  | nil => exact ends
  | cons c gap =>
    rintro d ⟨⟩
    have space := blank c List.mem_cons_self
    simp only [isSpace, Bool.or_eq_true, beq_iff_eq] at space
    rcases space with ((rfl | rfl) | rfl) | rfl <;> decide

/-- What stands between values ends a number. -/
theorem ends_cons {c : Char} (known : c ∈ [',', ']', '\x7d']) : Ends (c :: rest) := by
  rintro d ⟨⟩
  simp only [List.mem_cons, List.not_mem_nil, or_false] at known
  rcases known with rfl | rfl | rfl <;> decide

/-- The first of several members, from its key to its value. -/
theorem members?_member {t : Text} {ks gap' : List Char} {fuel : Nat} (before : Blank gap)
    (key : Quoted t ks) (between : Blank gap') :
    members? (fuel + 1) (gap ++ (ks ++ (gap' ++ ':' :: cs))) = (value? fuel cs).bind fun (v, r) =>
      match skip r with
      | '\x7d' :: r => some ([(t, v)], r)
      | ',' :: r => (members? fuel r).bind fun (ms, r) => some ((t, v) :: ms, r)
      | _ => none := by
  obtain ⟨spelling⟩ := key
  rw [members?, skip_append before, List.cons_append, skip_cons rfl, List.append_assoc,
    List.singleton_append]
  show (string? _).bind _ = _
  rw [string?_of_spelling spelling, Option.bind_some]
  dsimp only
  rw [skip_append between, skip_cons rfl]
  rfl

/-- **What the grammar writes is read.** -/
theorem Node.reads_of_written {node : Node} (written : node.Written cs) : node.Reads cs := by
  induction written with
  | null | true | false =>
    intro fuel rest enough _
    obtain ⟨fuel, rfl⟩ := Nat.exists_eq_add_one.mpr (Nat.lt_of_lt_of_le (by decide) enough)
    rfl
  | number spelled =>
    intro fuel rest enough ends
    have nonempty := spelled.length_pos
    obtain ⟨fuel, rfl⟩ := Nat.exists_eq_add_one.mpr (show 0 < fuel by omega)
    exact value?_of_spelled spelled ends
  | string quoted =>
    intro fuel rest enough _
    obtain ⟨spelling⟩ := quoted
    obtain ⟨fuel, rfl⟩ := Nat.exists_eq_add_one.mpr (Nat.lt_of_lt_of_le (by simp) enough)
    rw [List.cons_append, List.append_assoc, List.singleton_append]
    show (string? _).map _ = _
    rw [string?_of_spelling spelling]
    rfl
  | emptyArray blank =>
    intro fuel rest enough _
    obtain ⟨fuel, rfl⟩ := Nat.exists_eq_add_one.mpr (Nat.lt_of_lt_of_le (by simp) enough)
    rw [List.cons_append, List.append_assoc, value?_bracket, skip_append blank]
    rfl
  | emptyObject blank =>
    intro fuel rest enough _
    obtain ⟨fuel, rfl⟩ := Nat.exists_eq_add_one.mpr (Nat.lt_of_lt_of_le (by simp) enough)
    rw [List.cons_append, List.append_assoc, value?_brace, skip_append blank]
    rfl
  | array _ ih =>
    intro fuel rest enough _
    obtain ⟨fuel, rfl⟩ := Nat.exists_eq_add_one.mpr (Nat.lt_of_lt_of_le (by simp) enough)
    rw [List.length_cons, List.length_append] at enough
    rw [List.cons_append, List.append_assoc]
    exact value?_array (ih fuel rest (by omega))
  | object _ ih =>
    intro fuel rest enough _
    obtain ⟨fuel, rfl⟩ := Nat.exists_eq_add_one.mpr (Nat.lt_of_lt_of_le (by simp) enough)
    rw [List.length_cons, List.length_append] at enough
    rw [List.cons_append, List.append_assoc]
    exact value?_object (ih fuel rest (by omega))
  | element before _ after ih =>
    intro fuel rest enough ends
    rw [List.length_append, List.length_append] at enough
    rw [List.append_assoc, List.append_assoc, value?_append before]
    exact ⟨_, ih fuel _ (by omega) (ends_append after ends), skip_append after⟩
  -- a call for elements consumes nothing before its first element, so its bound is one more
  | lastElement _ ih =>
    intro fuel rest enough
    obtain ⟨fuel, rfl⟩ := Nat.exists_eq_add_one.mpr (Nat.zero_lt_of_lt enough)
    obtain ⟨r, read, next⟩ := ih fuel (']' :: rest) (by omega) (ends_cons (by decide))
    rw [items?, read]
    dsimp only [Option.bind_eq_bind, Option.bind_some]
    rw [next, skip_cons rfl]
    rfl
  | nextElement _ _ ih ihs =>
    intro fuel rest enough
    obtain ⟨fuel, rfl⟩ := Nat.exists_eq_add_one.mpr (Nat.zero_lt_of_lt enough)
    rw [List.length_append, List.length_cons] at enough
    obtain ⟨r, read, next⟩ := ih fuel _ (by omega) (ends_cons (c := ',') (by decide))
    rw [List.append_assoc, List.cons_append, items?, read]
    dsimp only [Option.bind_eq_bind, Option.bind_some]
    rw [next, skip_cons rfl]
    show (items? fuel _).bind _ = _
    rw [ihs fuel rest (by omega)]
    rfl
  | lastMember before key between _ ih =>
    intro fuel rest enough
    obtain ⟨fuel, rfl⟩ := Nat.exists_eq_add_one.mpr (Nat.zero_lt_of_lt enough)
    simp only [List.length_append, List.length_cons] at enough
    obtain ⟨r, read, next⟩ := ih fuel ('\x7d' :: rest) (by omega) (ends_cons (by decide))
    simp only [List.append_assoc, List.cons_append]
    rw [members?_member before key between, read, Option.bind_some]
    dsimp only
    rw [next, skip_cons rfl]
    rfl
  -- the first member is read in front of a comma, the others as one text behind it
  | nextMember before key between _ _ ih ihs =>
    intro fuel rest enough
    obtain ⟨fuel, rfl⟩ := Nat.exists_eq_add_one.mpr (Nat.zero_lt_of_lt enough)
    simp only [List.length_append, List.length_cons] at enough
    obtain ⟨r, read, next⟩ := ih fuel _ (by omega) (ends_cons (c := ',') (by decide))
    simp only [List.append_assoc, List.cons_append]
    rw [members?_member before key between, read, Option.bind_some]
    dsimp only
    rw [next, skip_cons rfl]
    show (members? fuel _).bind _ = _
    rw [ihs fuel rest (by omega)]
    rfl

/-- **A text that writes a value is read as that value.** -/
theorem read?_of_writes {text : String} {v : Value} (writes : Writes text v) :
    read? text = some v := by
  obtain ⟨r, read, next⟩ := Node.reads_of_written writes (2 * text.toList.length + 2) []
    (Nat.le_add_right _ 2) (fun c mem => by cases mem)
  rw [List.append_nil] at read
  unfold read?
  dsimp only
  rw [read]
  dsimp only [Option.bind_eq_bind, Option.bind_some]
  rw [next]
  rfl

/-- The same for a text without white space around the value. -/
theorem read?_of_value {text : String} {v : Value} (written : (Node.value v).Written text.toList) :
    read? text = some v := by
  have none : Blank [] := fun c mem => absurd mem List.not_mem_nil
  have element := Node.Written.element none written none
  rw [List.append_nil] at element
  exact read?_of_writes element

end SketchSolver.Json

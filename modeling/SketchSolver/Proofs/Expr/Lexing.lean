import Mathlib
import SketchSolver.Proofs.Expr.Grammar

/-!
# The lexer cuts texts as the grammar does

Where words are apart, the lexemes of a text begin with the tokens of any way to cut it
(`exists_lexWith_of_lexed`), and so there is only one. If what the lexer leaves after some
usable tokens is white space, they are such a way (`lexed_of_lexWith`).

The lexer takes the longest word. What makes it end where the grammar wants it to is that a
text `Stops` a word, which a gap, a symbol and white space do. A word that is followed by
another word would not stop there: two digits side by side are one number. The grammar does
not derive anything from such a sequence, so the condition that words are apart costs nothing.

The lexer does not know where a formula ends, so it goes on and makes a token of every other
character. An unknown one is a symbol that no rule uses; a number that was begun in vain is
malformed, and ends the text. That is why the first direction is about a beginning of the
lexemes: what stands after the last token of a formula is white space to the grammar, of which
the lexer makes what it can (`Ended`).

The lemmas come in pairs, one for each definition of the lexer. Those that end in `_append`
say what it takes from a text that is put together from a word and a rest, and those about
`exists_` what a text must have been put together from.

Where two classes of characters have to be told apart they are compared by their code points,
and these bounds are stated first.
-/

namespace SketchSolver

/-! ## Characters -/

/-- White space is outside the range of printed characters. -/
theorem Text.toNat_of_isBlank {c : Char} (blank : isBlank c = true) :
    c.toNat ≤ 32 ∨ 133 ≤ c.toNat := by
  simp only [isBlank, blankRanges, List.any_cons, List.any_nil, Bool.or_false, Bool.or_eq_true,
    Bool.and_eq_true, decide_eq_true_eq] at blank
  omega

namespace Token

theorem toNat_of_isDigit {c : Char} (digit : c.isDigit = true) : 48 ≤ c.toNat ∧ c.toNat ≤ 57 := by
  simp only [Char.isDigit, Bool.and_eq_true, decide_eq_true_eq, UInt32.le_iff_toNat_le,
    ge_iff_le] at digit
  exact digit

/-- Letters and the underscore are above the digits. -/
theorem toNat_of_isNameStart {c : Char} (start : isNameStart c = true) :
    65 ≤ c.toNat ∧ c.toNat ≤ 122 := by
  simp only [isNameStart, Char.isAlpha, Char.isUpper, Char.isLower, Bool.or_eq_true,
    Bool.and_eq_true, decide_eq_true_eq, beq_iff_eq, UInt32.le_iff_toNat_le, ge_iff_le] at start
  change ((65 ≤ c.toNat ∧ c.toNat ≤ 90) ∨ (97 ≤ c.toNat ∧ c.toNat ≤ 122)) ∨ c = '_' at start
  rcases start with start | rfl
  · omega
  · decide

/-- A name goes on with digits and with the characters that may begin it. -/
theorem isNamePart_iff {c : Char} :
    isNamePart c = true ↔ isNameStart c = true ∨ c.isDigit = true := by
  simp only [isNameStart, isNamePart, Char.isAlphanum, Bool.or_eq_true]
  tauto

/-- Parts of names are between the first digit and the last letter. -/
theorem toNat_of_isNamePart {c : Char} (part : isNamePart c = true) :
    48 ≤ c.toNat ∧ c.toNat ≤ 122 := by
  rcases isNamePart_iff.mp part with start | digit
  · have := toNat_of_isNameStart start
    omega
  · have := toNat_of_isDigit digit
    omega

end Token

/-! ## Where words end -/

/-- The text does not go on with a part of a word. -/
def Stops (cs : List Char) : Prop := ∀ c ∈ cs.head?, Token.isNamePart c = false ∧ c ≠ '.'

theorem Stops.nil : Stops [] := by
  intro c first
  simp at first

theorem Stops.of_isBlank {c : Char} {cs : List Char} (blank : Text.isBlank c = true) :
    Stops (c :: cs) := by
  intro d first
  obtain rfl : c = d := by simpa using first
  have outside := Text.toNat_of_isBlank blank
  refine ⟨Bool.eq_false_iff.mpr fun part => ?_, ?_⟩
  · have inside := Token.toNat_of_isNamePart part
    omega
  · rintro rfl
    simp at outside

theorem Stops.of_symbol {c : Char} {cs : List Char} (known : c ∈ Token.symbols) :
    Stops (c :: cs) := by
  intro d first
  obtain rfl : c = d := by simpa using first
  simp only [Token.symbols, List.mem_cons, List.not_mem_nil, or_false] at known
  rcases known with rfl | rfl | rfl | rfl | rfl | rfl <;> decide

/-- What stops a word is no part of a name. -/
theorem Stops.not_isNamePart {cs : List Char} (stops : Stops cs) :
    ∀ c ∈ cs.head?, Token.isNamePart c = false :=
  fun c first => (stops c first).1

theorem Stops.not_isDigit {cs : List Char} (stops : Stops cs) :
    ∀ c ∈ cs.head?, c.isDigit = false := by
  intro c first
  refine Bool.eq_false_iff.mpr fun digit => ?_
  have part := Token.isNamePart_iff.mpr (Or.inr digit)
  rw [stops.not_isNamePart c first] at part
  contradiction

/-- A text that begins with no word stops any word before it. -/
theorem Lexed.stops {ts : List Token} {cs : List Char} (lexed : Lexed ts cs)
    (first : ∀ t ∈ ts.head?, ∃ c, t = .symbol c) : Stops cs := by
  cases lexed with
  | done blank =>
    cases cs with
    | nil => exact Stops.nil
    | cons c cs => exact Stops.of_isBlank (blank c List.mem_cons_self)
  | @token t ts gap word cs skipped spelled rest =>
    cases gap with
    | nil =>
      obtain ⟨c, rfl⟩ := first t rfl
      cases spelled with
      | symbol known => exact Stops.of_symbol known
    | cons g gap => exact Stops.of_isBlank (Text.isBlank_of_isGap (skipped g List.mem_cons_self))

/-- The longest run of characters ends where the next one does not belong to it. -/
theorem span_append {p : Char → Bool} {ds cs : List Char} (run : ∀ c ∈ ds, p c = true)
    (ends : ∀ c ∈ cs.head?, p c = false) : (ds ++ cs).span p = (ds, cs) := by
  have none : cs.takeWhile p = [] ∧ cs.dropWhile p = cs := by
    cases cs with
    | nil => exact ⟨rfl, rfl⟩
    | cons c cs => simp [ends c rfl]
  rw [List.span_eq_takeWhile_dropWhile, List.takeWhile_append_of_pos run,
    List.dropWhile_append_of_pos run, none.1, none.2, List.append_nil]

/-! ## The lexer takes the tokens of the grammar -/

namespace Token

variable {cs : List Char}

/-- An exponent is taken up to its last digit. -/
theorem exponent?_append {factor : Int} {sign ds : List Char} (signed : ExponentSign factor sign)
    (digits : Digits ds) (stops : Stops cs) :
    exponent? (sign ++ (ds ++ cs)) = some (factor * Decimal.ofDigits ds, cs) := by
  have read : Decimal.spanDigits (ds ++ cs) = (ds, cs) := span_append digits.2 stops.not_isDigit
  obtain ⟨d, es, rfl⟩ := List.exists_cons_of_ne_nil digits.1
  rw [List.cons_append] at read ⊢
  cases signed with
  | none =>
    have digit := digits.2 d List.mem_cons_self
    have unsigned : d ≠ '-' ∧ d ≠ '+' := by constructor <;> rintro rfl <;> simp at digit
    simp [exponent?, unsigned, read]
  | plus => simp [exponent?, read]
  | minus => simp [exponent?, read]

/-- After a mantissa the exponent is taken, if there is one. -/
theorem scaledNumber_append {e : Int} {whole fraction exponent : List Char}
    (scale : Exponent e exponent) (stops : Stops cs) :
    scaledNumber whole fraction (exponent ++ cs) =
      .ok (Decimal.nearest (Decimal.ofDigits (whole ++ fraction)) (e - fraction.length), cs) := by
  unfold scaledNumber
  cases scale with
  | absent =>
    cases cs with
    | nil => simp
    | cons c cs =>
      have unmarked : c ≠ 'e' ∧ c ≠ 'E' := by
        constructor <;> rintro rfl <;> exact absurd (stops.not_isNamePart _ rfl) (by decide)
      simp [unmarked]
  | marked isMark signed digits =>
    rw [List.cons_append, List.append_assoc]
    simp [isMark, exponent?_append signed digits stops, Int.sub_eq_add_neg]

/-- A number is taken as a whole, and as the nearest double. -/
theorem readNumber_append {e : Int} {whole fraction mantissa exponent : List Char}
    (digits : Mantissa whole fraction mantissa) (scale : Exponent e exponent) (stops : Stops cs) :
    readNumber (mantissa ++ (exponent ++ cs)) =
      .ok (Decimal.nearest (Decimal.ofDigits (whole ++ fraction)) (e - fraction.length), cs) := by
  -- neither a mark nor what follows the number belongs to its digits
  have ends : ∀ c ∈ (exponent ++ cs).head?, c.isDigit = false ∧ c ≠ '.' := by
    cases scale with
    | absent => exact fun c first => ⟨stops.not_isDigit c first, (stops c first).2⟩
    | marked isMark signed digits =>
      intro c first
      obtain rfl := Option.mem_some_iff.mp first
      rcases isMark with rfl | rfl <;> decide
  have read {ds : List Char} (run : ∀ c ∈ ds, c.isDigit = true) :
      Decimal.spanDigits (ds ++ (exponent ++ cs)) = (ds, exponent ++ cs) :=
    span_append run fun c first => (ends c first).1
  have pointed {ds es : List Char} (run : ∀ c ∈ ds, c.isDigit = true) :
      Decimal.spanDigits (ds ++ '.' :: es) = (ds, '.' :: es) :=
    span_append run fun c first => by
      obtain rfl := Option.mem_some_iff.mp first
      decide
  unfold readNumber
  cases digits with
  | whole digits =>
    rw [read digits.2]
    dsimp only
    split
    next r eq => exact absurd rfl (ends '.' (by rw [eq]; rfl)).2
    next => exact scaledNumber_append scale stops
  | pointed digits more =>
    rw [List.append_assoc, List.cons_append, pointed digits.2]
    simp only [read more, List.isEmpty_iff, Bool.and_eq_true, digits.1, false_and, if_false]
    exact scaledNumber_append scale stops
  | bare digits =>
    rw [List.cons_append, ← List.nil_append ('.' :: _),
      pointed fun c hc => absurd hc List.not_mem_nil]
    simp only [read digits.2, List.isEmpty_iff, Bool.and_eq_true, digits.1, and_false, if_false]
    exact scaledNumber_append scale stops

/-- A number begins with a digit or a point. -/
theorem toNat_of_numberStart {c : Char} (first : (c.isDigit || c == '.') = true) :
    46 ≤ c.toNat ∧ c.toNat ≤ 57 := by
  rw [Bool.or_eq_true, beq_iff_eq] at first
  rcases first with digit | rfl
  · have := toNat_of_isDigit digit
    omega
  · decide

/-- A number begins with a digit or a point. -/
theorem exists_cons_of_mantissa {whole fraction mantissa : List Char}
    (digits : Mantissa whole fraction mantissa) :
    ∃ c r, mantissa = c :: r ∧ (c.isDigit || c == '.') = true := by
  cases digits with
  | whole digits | pointed digits more =>
    obtain ⟨c, r, rfl⟩ := List.exists_cons_of_ne_nil digits.1
    exact ⟨c, _, rfl, by rw [digits.2 c List.mem_cons_self, Bool.true_or]⟩
  | bare digits => exact ⟨'.', _, rfl, rfl⟩

/-- **The lexer takes a word that the text stops, and any symbol.** -/
theorem exists_next_of_spelled {t : Token} {word : List Char} (spelled : Spelled t word)
    (stops : (∃ c, t = .symbol c) ∨ Stops cs) :
    ∃ c r, word = c :: r ∧ 40 ≤ c.toNat ∧ c.toNat ≤ 122 ∧ next c (r ++ cs) = (t, cs) := by
  cases spelled with
  | @number whole fraction mantissa exponent e digits scale =>
    replace stops : Stops cs := stops.resolve_left (by rintro ⟨c, h⟩; cases h)
    obtain ⟨c, r, rfl, first⟩ := exists_cons_of_mantissa digits
    have read := readNumber_append digits scale stops
    rw [List.cons_append, ← List.append_assoc] at read
    have range := toNat_of_numberStart first
    refine ⟨c, r ++ exponent, rfl, by omega, by omega, ?_⟩
    unfold next
    rw [if_pos first, read]
  | @name c r first more =>
    replace stops : Stops cs := stops.resolve_left (by rintro ⟨c, h⟩; cases h)
    have range := toNat_of_isNameStart first
    have other : ¬(c.isDigit || c == '.') = true := by
      intro number
      have := toNat_of_numberStart number
      omega
    refine ⟨c, r, rfl, by omega, by omega, ?_⟩
    unfold next
    rw [if_neg other, if_pos first, span_append more stops.not_isNamePart]
  | @symbol c known =>
    refine ⟨c, [], rfl, ?_⟩
    simp only [symbols, List.mem_cons, List.not_mem_nil, or_false] at known
    rcases known with rfl | rfl | rfl | rfl | rfl | rfl <;> exact ⟨by decide, by decide, rfl⟩

/-- White space that is no gap is read as a symbol. -/
theorem next_of_isBlank {c : Char} (blank : Text.isBlank c = true) :
    next c cs = (.symbol c, cs) := by
  have outside := Text.toNat_of_isBlank blank
  have number : ¬(c.isDigit || c == '.') = true := fun first => by
    have := toNat_of_numberStart first
    omega
  have name : ¬isNameStart c = true := fun first => by
    have := toNat_of_isNameStart first
    omega
  unfold next
  rw [if_neg number, if_neg name]

/-- The lexer goes on where a token ends. -/
theorem lexWith_append {fuel : Nat} {gap : List Char} {c : Char} {r : List Char} {t : Token}
    (skipped : ∀ d ∈ gap, Text.isGap d = true) (solid : Text.isGap c = false)
    (taken : next c r = (t, cs)) :
    lexWith (fuel + 1) (gap ++ c :: r) = ⟨t, gap ++ c :: r, c :: r⟩ :: lexWith fuel cs := by
  have drop : (gap ++ c :: r).dropWhile Text.isGap = c :: r := by
    rw [List.dropWhile_append_of_pos skipped, List.dropWhile_cons_of_neg (by simp [solid])]
  rw [lexWith, drop]
  dsimp only
  rw [taken]

/-- After the last token there is white space, of which the lexer makes nothing that the grammar can
use. -/
structure Ended (tail : List Lexeme) : Prop where
  blank : (Formula.textBefore [] tail).all Text.isBlank = true
  unusable : ∀ l ∈ tail.head?, ¬l.token.Usable

/-- White space ends a formula, whatever the lexer makes of it. -/
theorem ended_lexWith (fuel : Nat) (blank : ∀ c ∈ cs, Text.isBlank c = true) :
    Ended (lexWith fuel cs) := by
  cases fuel with
  | zero => exact ⟨rfl, by simp [lexWith]⟩
  | succ fuel =>
    unfold lexWith
    split
    next => exact ⟨rfl, by simp⟩
    next c r eq =>
      have isBlank : Text.isBlank c = true :=
        blank c ((List.dropWhile_sublist _).mem (eq ▸ List.mem_cons_self))
      have outside := Text.toNat_of_isBlank isBlank
      rw [next_of_isBlank isBlank]
      refine ⟨List.all_eq_true.mpr blank, fun l first => ?_⟩
      obtain rfl := Option.mem_some_iff.mp first
      intro known
      simp only [Usable, symbols, List.mem_cons, List.not_mem_nil, or_false] at known
      rcases known with rfl | rfl | rfl | rfl | rfl | rfl <;> simp at outside

/-- **The lexemes of a text begin with the tokens that the grammar cuts it into**, if words are
apart. -/
theorem exists_lexWith_of_lexed {ts : List Token} {fuel : Nat} (lexed : Lexed ts cs)
    (chain : ts.IsChain Apart) (enough : cs.length ≤ fuel) :
    ∃ ls tail, lexWith fuel cs = ls ++ tail ∧ ls.map (·.token) = ts ∧ Ended tail := by
  induction lexed generalizing fuel with
  | done blank => exact ⟨[], _, rfl, rfl, ended_lexWith fuel blank⟩
  | @token t ts gap word cs skipped spelled rest ih =>
    obtain ⟨apart, chain⟩ := List.isChain_cons.mp chain
    have stops : (∃ c, t = .symbol c) ∨ Stops cs := by
      by_cases symbol : ∃ c, t = .symbol c
      · exact Or.inl symbol
      · exact Or.inr (rest.stops fun u first => (apart u first).resolve_left symbol)
    obtain ⟨c, r, rfl, low, high, taken⟩ := exists_next_of_spelled spelled stops
    have solid : Text.isGap c = false := by
      refine Bool.eq_false_iff.mpr fun isGap => ?_
      have := Text.toNat_of_isBlank (Text.isBlank_of_isGap isGap)
      omega
    obtain ⟨fuel, rfl⟩ : ∃ n, fuel = n + 1 := Nat.exists_eq_succ_of_ne_zero (by
      rintro rfl
      simp at enough)
    simp only [List.length_append, List.length_cons] at enough
    obtain ⟨ls, tail, cut, tokens, ended⟩ := ih chain (show cs.length ≤ fuel by omega)
    rw [List.append_assoc, List.cons_append, lexWith_append skipped solid taken, cut]
    exact ⟨_ :: ls, tail, rfl, by rw [List.map_cons, tokens], ended⟩

/-! ## The grammar has the tokens of the lexer -/

theorem append_of_spanDigits {ds rest : List Char} (read : Decimal.spanDigits cs = (ds, rest)) :
    cs = ds ++ rest ∧ (∀ c ∈ ds, c.isDigit = true) ∧ ∀ c ∈ rest.head?, c.isDigit = false := by
  unfold Decimal.spanDigits at read
  rw [List.span_eq_takeWhile_dropWhile] at read
  obtain ⟨rfl, rfl⟩ := Prod.mk.inj read
  refine ⟨List.takeWhile_append_dropWhile.symm, fun c hc => List.mem_takeWhile_imp hc, ?_⟩
  intro c first
  have := List.head?_dropWhile_not Char.isDigit cs
  rw [Option.mem_def.mp first] at this
  exact this

/-- An exponent that was taken is spelled as one. -/
theorem exists_sign_of_exponent? {e : Int} {rest : List Char}
    (read : exponent? cs = some (e, rest)) :
    ∃ factor sign ds, cs = sign ++ (ds ++ rest) ∧ ExponentSign factor sign ∧ Digits ds ∧
      e = factor * Decimal.ofDigits ds := by
  unfold exponent? at read
  split at read
  next _ negative body eq =>
    obtain ⟨factor, sign, rfl, signed, isFactor⟩ : ∃ factor sign, cs = sign ++ body ∧
        ExponentSign factor sign ∧ factor = if negative then -1 else 1 := by
      split at eq <;> cases eq
      · exact ⟨-1, ['-'], rfl, .minus, rfl⟩
      · exact ⟨1, ['+'], rfl, .plus, rfl⟩
      · exact ⟨1, [], rfl, .none, rfl⟩
    split at read
    next => cases read
    next ds after notEmpty digits =>
      cases read
      obtain ⟨rfl, run, -⟩ := append_of_spanDigits digits
      refine ⟨factor, sign, ds, rfl, signed, ⟨notEmpty, run⟩, ?_⟩
      rw [isFactor]
      split <;> simp

/-- What was taken after a mantissa is an exponent or nothing. -/
theorem exists_exponent_of_scaledNumber {whole fraction rest : List Char} {v : Float}
    (read : scaledNumber whole fraction cs = .ok (v, rest)) :
    ∃ e exponent, cs = exponent ++ rest ∧ Exponent e exponent ∧
      v = Decimal.nearest (Decimal.ofDigits (whole ++ fraction)) (e - fraction.length) := by
  unfold scaledNumber at read
  dsimp only at read
  split at read
  next c r =>
    split at read
    next mark =>
      split at read
      next e after eq =>
        cases read
        obtain ⟨factor, sign, ds, rfl, signed, digits, rfl⟩ := exists_sign_of_exponent? eq
        refine ⟨_, c :: (sign ++ ds), by simp, .marked (by simpa using mark) signed digits, ?_⟩
        rw [Int.sub_eq_add_neg]
      next => cases read
    next =>
      cases read
      exact ⟨0, [], rfl, .absent, by rw [Int.zero_sub]⟩
  next =>
    cases read
    exact ⟨0, [], rfl, .absent, by rw [Int.zero_sub]⟩

/-- A number that was taken is spelled as one. -/
theorem exists_spelled_of_readNumber {c : Char} {rest : List Char} {v : Float}
    (first : (c.isDigit || c == '.') = true) (read : readNumber (c :: cs) = .ok (v, rest)) :
    ∃ word, c :: cs = word ++ rest ∧ Spelled (.number v) word := by
  unfold readNumber at read
  generalize eq : Decimal.spanDigits (c :: cs) = parts at read
  obtain ⟨whole, more⟩ := parts
  obtain ⟨cut, run, ends⟩ := append_of_spanDigits eq
  dsimp only at read
  split at read
  next r =>
    generalize eq' : Decimal.spanDigits r = parts at read
    obtain ⟨fraction, more⟩ := parts
    obtain ⟨rfl, run', -⟩ := append_of_spanDigits eq'
    dsimp only at read
    split at read
    next => cases read
    next digits =>
      obtain ⟨e, exponent, rfl, scale, rfl⟩ := exists_exponent_of_scaledNumber read
      have mantissa : Mantissa whole fraction (whole ++ '.' :: fraction) := by
        by_cases empty : whole = []
        · subst empty
          exact .bare ⟨by simpa using digits, run'⟩
        · exact .pointed ⟨empty, run⟩ run'
      refine ⟨whole ++ '.' :: fraction ++ exponent, ?_, .number mantissa scale⟩
      rw [cut, List.append_assoc, List.append_assoc, List.cons_append]
  next _ pointless =>
    obtain ⟨e, exponent, rfl, scale, rfl⟩ := exists_exponent_of_scaledNumber read
    -- a number without a point begins with a digit, for with a point it would have one
    have digits : whole ≠ [] := by
      rintro rfl
      rw [List.nil_append] at cut
      rw [Bool.or_eq_true, beq_iff_eq] at first
      rcases first with digit | rfl
      · cases digit.symm.trans (ends c (by rw [← cut]; rfl))
      · exact pointless _ cut.symm
    refine ⟨whole ++ exponent, ?_, .number (.whole ⟨digits, run⟩) scale⟩
    rw [cut, List.append_assoc]

/-- **Each usable token of the lexer is spelled by the text that it takes.** -/
theorem exists_spelled_of_next {c : Char} {t : Token} {rest : List Char}
    (taken : next c cs = (t, rest)) (usable : t.Usable) :
    ∃ word, c :: cs = word ++ rest ∧ Spelled t word := by
  unfold next at taken
  split at taken
  next first =>
    split at taken
    next v after read =>
      cases taken
      exact exists_spelled_of_readNumber first read
    next =>
      cases taken
      exact usable.elim
  next =>
    split at taken
    next first =>
      rw [List.span_eq_takeWhile_dropWhile] at taken
      cases taken
      refine ⟨c :: cs.takeWhile isNamePart, ?_, .name first fun d hd => List.mem_takeWhile_imp hd⟩
      rw [List.cons_append, List.takeWhile_append_dropWhile]
    next =>
      cases taken
      exact ⟨[c], rfl, .symbol usable⟩

theorem ne_nil_of_spelled {t : Token} {word : List Char} (spelled : Spelled t word) :
    word ≠ [] := by
  cases spelled with
  | number digits scale =>
    obtain ⟨c, r, rfl, -⟩ := exists_cons_of_mantissa digits
    exact List.cons_ne_nil _ _
  | name first more => exact List.cons_ne_nil _ _
  | symbol known => exact List.cons_ne_nil _ _

/-- The lexer ends in a gap, or it takes a token behind one. -/
theorem lexWith_cases (fuel : Nat) (enough : cs.length ≤ fuel) :
    (lexWith fuel cs = [] ∧ ∀ c ∈ cs, Text.isGap c = true) ∨
    ∃ n gap c r t rest, fuel = n + 1 ∧ cs = gap ++ c :: r ∧ (∀ d ∈ gap, Text.isGap d = true) ∧
      next c r = (t, rest) ∧ lexWith fuel cs = ⟨t, cs, c :: r⟩ :: lexWith n rest := by
  cases fuel with
  | zero =>
    obtain rfl := List.eq_nil_of_length_eq_zero (Nat.le_zero.mp enough)
    exact Or.inl ⟨rfl, fun c hc => absurd hc List.not_mem_nil⟩
  | succ n =>
    have cut := List.takeWhile_append_dropWhile (p := Text.isGap) (l := cs)
    cases eq : cs.dropWhile Text.isGap with
    | nil => exact Or.inl ⟨by rw [lexWith, eq], List.dropWhile_eq_nil_iff.mp eq⟩
    | cons c r =>
      rw [eq] at cut
      refine Or.inr ⟨n, cs.takeWhile Text.isGap, c, r, (next c r).1, (next c r).2, rfl, cut.symm,
        fun d hd => List.mem_takeWhile_imp hd, rfl, ?_⟩
      rw [lexWith, eq]

/-- **The tokens of the first lexemes cut the text**, if all are usable and white space is left. -/
theorem lexed_of_lexWith {ls tail : List Lexeme} {fuel : Nat} (enough : cs.length ≤ fuel)
    (cut : lexWith fuel cs = ls ++ tail) (usable : ∀ l ∈ ls, l.token.Usable)
    (blank : (Formula.textBefore [] tail).all Text.isBlank = true) :
    Lexed (ls.map (·.token)) cs := by
  induction ls generalizing fuel cs with
  | nil =>
    refine .done ?_
    rcases lexWith_cases fuel enough with ⟨-, gap⟩ | ⟨n, gap, c, r, t, rest, -, -, -, -, taken⟩
    · exact fun c hc => Text.isBlank_of_isGap (gap c hc)
    · obtain rfl : _ = tail := taken.symm.trans cut
      exact List.all_eq_true.mp blank
  | cons l ls ih =>
    rcases lexWith_cases fuel enough with
      ⟨empty, -⟩ | ⟨n, gap, c, r, t, rest, rfl, rfl, skipped, next, taken⟩
    · rw [empty] at cut
      cases cut
    · obtain ⟨rfl, left⟩ := List.cons.inj (taken.symm.trans cut)
      obtain ⟨word, text, spelled⟩ := exists_spelled_of_next next (usable _ List.mem_cons_self)
      have positive := List.length_pos_iff.mpr (ne_nil_of_spelled spelled)
      have length := congrArg List.length text
      simp only [List.length_append, List.length_cons] at length enough
      rw [text, ← List.append_assoc]
      exact .token skipped spelled
        (ih (show rest.length ≤ n by omega) left fun l hl => usable l (List.mem_cons_of_mem _ hl))

end Token

end SketchSolver

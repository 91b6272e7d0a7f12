import SketchSolver.Decimal.Reading
import SketchSolver.Text.Blank

/-!
# Tokens of expression texts

A text is cut into numbers, names and single characters. Each `Lexeme` keeps what is left of the
text where it begins, with and without the gap in front, since messages quote the text from
there.

A number is `digits [. [digits]]` or `. digits`, and then possibly an exponent. A point without
a digit, and an exponent mark without one, is no token: the text ends there with a `malformed`
lexeme.

Correspondence with the program:
- The program has no tokens. Its grammar is made of combinators that read characters: `number`,
  `identifier`, and `symbol` with the gap `ws` in front. Which of them reads a stretch of text is
  settled by its first character, so cutting the text first finds the same stretches.
- A number is read as the nearest double, of any length. The library's reader would also take
  `inf` and `nan`, and the program lets it see a text only if that begins with a digit or point.
- Letters and digits are the ASCII ones, and a sign is never part of a number.
- A malformed number fails as such only where a number may stand. Elsewhere it is reported like
  any other text that goes on where it should not, from the gap in front of it.
-/

namespace SketchSolver

/-- What is wrong with the text of a number. -/
inductive NumberFault where
  /-- A point with no digit on either side. -/
  | noDigits
  /-- An exponent mark with no digit after it. -/
  | noExponent
  deriving DecidableEq, Repr

/-- A token of an expression text. -/
inductive Token where
  | number (value : Float)
  | name (text : String)
  | symbol (c : Char)
  | malformed (fault : NumberFault)
  deriving Repr

/-- A token, what follows it, and the text from its beginning. -/
structure Lexeme where
  token : Token
  /-- The text from the end of the token before. -/
  before : List Char
  /-- The text from the first character of the token. -/
  start : List Char
  deriving Repr

namespace Token

/-- A character that may begin a name. -/
def isNameStart (c : Char) : Bool := c.isAlpha || c == '_'

/-- A character that may continue a name. -/
def isNamePart (c : Char) : Bool := c.isAlphanum || c == '_'

/-- The exponent after a mark: its sign, its digits, and what follows. -/
def exponent? (cs : List Char) : Option (Int × List Char) :=
  let (negative, body) :=
    match cs with
    | '-' :: r => (true, r)
    | '+' :: r => (false, r)
    | r => (false, r)
  match Decimal.spanDigits body with
  | ([], _) => none
  | (ds, rest) =>
    let n : Int := Decimal.ofDigits ds
    some (if negative then -n else n, rest)

/-- The number whose digits before and after the point are given, with the exponent that the rest of
the text may have. -/
def scaledNumber (whole fraction rest : List Char) : Except NumberFault (Float × List Char) :=
  let digits := Decimal.ofDigits (whole ++ fraction)
  let shift : Int := -(fraction.length : Int)
  match rest with
  | c :: r =>
    if c == 'e' || c == 'E' then
      match exponent? r with
      | some (e, rest) => .ok (Decimal.nearest digits (e + shift), rest)
      | none => .error .noExponent
    else .ok (Decimal.nearest digits shift, rest)
  | [] => .ok (Decimal.nearest digits shift, [])

/-- The number at the head of a text that begins with a digit or a point. -/
def readNumber (cs : List Char) : Except NumberFault (Float × List Char) :=
  let (whole, rest) := Decimal.spanDigits cs
  match rest with
  | '.' :: r =>
    let (fraction, rest) := Decimal.spanDigits r
    if whole.isEmpty && fraction.isEmpty then .error .noDigits
    else scaledNumber whole fraction rest
  | _ => scaledNumber whole [] rest

/-- The token at the head of a text, and what follows it. Nothing follows a malformed number. -/
def next (c : Char) (cs : List Char) : Token × List Char :=
  if c.isDigit || c == '.' then
    match readNumber (c :: cs) with
    | .ok (v, rest) => (.number v, rest)
    | .error fault => (.malformed fault, [])
  else if isNameStart c then
    let (more, rest) := cs.span isNamePart
    (.name (String.ofList (c :: more)), rest)
  else (.symbol c, cs)

/-- The lexemes of a text, with fuel for as many as it has characters. -/
def lexWith : Nat → List Char → List Lexeme
  | 0, _ => []
  | fuel + 1, cs =>
    match cs.dropWhile Text.isGap with
    | [] => []
    | c :: r =>
      let (token, rest) := next c r
      ⟨token, cs, c :: r⟩ :: lexWith fuel rest

/-- The lexemes of a text. -/
def lex (cs : List Char) : List Lexeme := lexWith cs.length cs

end Token

end SketchSolver

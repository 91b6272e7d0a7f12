import SketchSolver.Json.Value

/-!
# Reading JSON

Strict JSON: no comments, no trailing commas, no leading zeros, and nothing but white space
around the value. `read?` is defined on every text and never runs deeper than the text is long.

The grammar is that of the JSON library which the program uses. Each rule takes the text and
yields what it read with the rest. The rules for values, items and members call each other with
fuel; every call reads at least one character or hands on to a rule that does, so twice the
length of the text is enough. Strings are read as pieces first, since units of a surrogate pair
are put together only after all escapes are known.

A failure has no content: where and why a text is no JSON is the library's wording, and nothing
depends on it but a message.
-/

namespace SketchSolver.Json

/-- The white space of JSON. -/
def isSpace (c : Char) : Bool := c == ' ' || c == '\n' || c == '\t' || c == '\r'

/-- The text without white space in front. -/
def skip (cs : List Char) : List Char := cs.dropWhile isSpace

/-- The value of a hexadecimal digit. -/
def hexDigit? (c : Char) : Option Nat :=
  if c.isDigit then some (c.toNat - '0'.toNat)
  else if 'a' ≤ c && c ≤ 'f' then some (c.toNat - 'a'.toNat + 10)
  else if 'A' ≤ c && c ≤ 'F' then some (c.toNat - 'A'.toNat + 10)
  else none

/-- The value of the four hexadecimal digits at the head of a text. -/
def hexUnit? : List Char → Option (Nat × List Char)
  | a :: b :: c :: d :: r => do
    let a ← hexDigit? a
    let b ← hexDigit? b
    let c ← hexDigit? c
    let d ← hexDigit? d
    return (((a * 16 + b) * 16 + c) * 16 + d, r)
  | _ => none

/-- A character of a string: one that stands for itself, or a unit of an escape by number. -/
inductive Piece where
  | char (c : Char)
  | unit (n : Nat)
  deriving DecidableEq, Repr

/-- The character that a short escape stands for. -/
def shortEscape? : Char → Option Char
  | '"' => some '"'
  | '\\' => some '\\'
  | '/' => some '/'
  | 'b' => some '\x08'
  | 'f' => some '\x0c'
  | 'n' => some '\n'
  | 'r' => some '\r'
  | 't' => some '\t'
  | _ => none

/-- The pieces of a string after its opening quote, and what follows the closing one. -/
def pieces? : Nat → List Char → Option (List Piece × List Char)
  | 0, _ => none
  | fuel + 1, cs =>
    match cs with
    | [] => none
    | '"' :: r => some ([], r)
    | '\\' :: 'u' :: r => do
      let (n, r) ← hexUnit? r
      let (ps, r) ← pieces? fuel r
      return (.unit n :: ps, r)
    | '\\' :: c :: r => do
      let c ← shortEscape? c
      let (ps, r) ← pieces? fuel r
      return (.char c :: ps, r)
    | c :: r =>
      if c.toNat < 0x20 then none
      else do
        let (ps, r) ← pieces? fuel r
        return (.char c :: ps, r)

/-- The first unit of a surrogate pair. -/
def isHigh (n : Nat) : Bool := 0xD800 ≤ n && n < 0xDC00

/-- The second unit of a surrogate pair. -/
def isLow (n : Nat) : Bool := 0xDC00 ≤ n && n < 0xE000

/-- The characters that the pieces stand for. Units above the first plane come in pairs. -/
def characters? : List Piece → Option (List Char)
  | [] => some []
  | .char c :: ps => (characters? ps).map (c :: ·)
  | .unit n :: ps =>
    if isHigh n then
      match ps with
      | .unit m :: ps =>
        if isLow m then
          (characters? ps).map (Char.ofNat (0x10000 + (n - 0xD800) * 0x400 + (m - 0xDC00)) :: ·)
        else none
      | _ => none
    else if isLow n then none
    else (characters? ps).map (Char.ofNat n :: ·)

/-- The string after an opening quote. -/
def string? (cs : List Char) : Option (Text × List Char) := do
  let (ps, r) ← pieces? (cs.length + 1) cs
  return ((characters? ps).map String.ofList, r)

/-- The digits at the head of a text, at least one. -/
def digits? (cs : List Char) : Option (List Char × List Char) :=
  match cs.span Char.isDigit with
  | ([], _) => none
  | (ds, r) => some (ds, r)

/-- The fraction of a number, if a point follows. -/
def fraction? (cs : List Char) : Option (Option (List Char) × List Char) :=
  match cs with
  | '.' :: r => (digits? r).map fun (ds, r) => (some ds, r)
  | r => some (none, r)

/-- The exponent of a number, if a mark follows. -/
def exponent? (cs : List Char) : Option (Option (Bool × List Char) × List Char) :=
  match cs with
  | [] => some (none, [])
  | c :: r =>
    if c == 'e' || c == 'E' then
      match r with
      | '-' :: r => (digits? r).map fun (ds, r) => (some (true, ds), r)
      | '+' :: r => (digits? r).map fun (ds, r) => (some (false, ds), r)
      | r => (digits? r).map fun (ds, r) => (some (false, ds), r)
    else some (none, c :: r)

/-- A number after its sign. A zero in front is the only digit before the point. -/
def number? (negative : Bool) (cs : List Char) : Option (Number × List Char) := do
  let (whole, r) ← digits? cs
  if whole.length ≠ 1 && whole.head? == some '0' then none
  let (fraction, r) ← fraction? r
  let (exponent, r) ← exponent? r
  return ({ negative, whole, fraction, exponent }, r)

mutual

/-- The value at the head of a text, white space in front of it skipped. -/
def value? : Nat → List Char → Option (Value × List Char)
  | 0, _ => none
  | fuel + 1, cs =>
    match skip cs with
    | 'n' :: 'u' :: 'l' :: 'l' :: r => some (.null, r)
    | 't' :: 'r' :: 'u' :: 'e' :: r => some (.bool true, r)
    | 'f' :: 'a' :: 'l' :: 's' :: 'e' :: r => some (.bool false, r)
    | '"' :: r => (string? r).map fun (t, r) => (.string t, r)
    | '[' :: r =>
      match skip r with
      | ']' :: r => some (.array [], r)
      | r => (items? fuel r).map fun (vs, r) => (.array vs, r)
    | '\x7b' :: r =>
      match skip r with
      | '\x7d' :: r => some (.object [], r)
      | r => (members? fuel r).map fun (ms, r) => (.object ms, r)
    | '-' :: r => (number? true r).map fun (n, r) => (.number n, r)
    | r => (number? false r).map fun (n, r) => (.number n, r)

/-- The items of an array, and what follows the closing bracket. -/
def items? : Nat → List Char → Option (List Value × List Char)
  | 0, _ => none
  | fuel + 1, cs => do
    let (v, r) ← value? fuel cs
    match skip r with
    | ']' :: r => return ([v], r)
    | ',' :: r =>
      let (vs, r) ← items? fuel r
      return (v :: vs, r)
    | _ => none

/-- The members of an object, and what follows the closing brace. -/
def members? : Nat → List Char → Option (List (Text × Value) × List Char)
  | 0, _ => none
  | fuel + 1, cs =>
    match skip cs with
    | '"' :: r => do
      let (key, r) ← string? r
      match skip r with
      | ':' :: r =>
        let (v, r) ← value? fuel r
        match skip r with
        | '\x7d' :: r => return ([(key, v)], r)
        | ',' :: r =>
          let (ms, r) ← members? fuel r
          return ((key, v) :: ms, r)
        | _ => none
      | _ => none
    | _ => none

end

/-- The value that a text writes. -/
def read? (text : String) : Option Value := do
  let cs := text.toList
  let (v, r) ← value? (2 * cs.length + 2) cs
  if (skip r).isEmpty then some v else none

end SketchSolver.Json

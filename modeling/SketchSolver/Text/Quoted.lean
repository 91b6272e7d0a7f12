import SketchSolver.Text.Blank

/-!
# Quoted text

Messages show a piece of the input between double quotes. Quotes, backslashes and the three
common control characters are written with a backslash; other characters that cannot be seen are
written by their code point.

It is the debugging form of a text, in which the program shows where an expression stopped
being one. Which characters count as printable is a table there; here those are unseen that
are control characters or white space other than the space, which is what texts of expressions
can be expected to hold. Letters of any script stand for themselves.
-/

namespace SketchSolver.Text

/-- A control character, or white space other than the space. -/
def isUnseen (c : Char) : Bool :=
  c.toNat < 0x20 || (0x7F ≤ c.toNat && c.toNat < 0xA0) || (isBlank c && c != ' ')

/-- The lower-case hexadecimal digits of a number. -/
def hexDigits (n : Nat) : List Char := Nat.toDigits 16 n

/-- One character between quotes. -/
def quotedChar (c : Char) : List Char :=
  match c with
  | '"' => ['\\', '"']
  | '\\' => ['\\', '\\']
  | '\n' => ['\\', 'n']
  | '\r' => ['\\', 'r']
  | '\t' => ['\\', 't']
  | '\x00' => ['\\', '0']
  | c =>
    if isUnseen c then ['\\', 'u', '\x7b'] ++ hexDigits c.toNat ++ ['\x7d'] else [c]

/-- A text between double quotes. -/
def quoted (cs : List Char) : String := "\"" ++ String.ofList (cs.flatMap quotedChar) ++ "\""

end SketchSolver.Text

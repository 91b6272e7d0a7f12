/-!
# White space

Two notions of white space meet in expression texts. Between tokens only `isGap` characters may
stand: space, tab, carriage return and line feed. After the last token any white space of the
Unicode standard may follow, and `isBlank` is that property.

The first is what the parser library of the program skips, the second what it trims from the
rest of a text before it asks whether anything is left. Every gap is blank
(`isBlank_of_isGap`), but a no-break space, say, is blank and no gap: inside an expression it is
an error, and at its end it is not.
-/

namespace SketchSolver.Text

/-- A character that may stand between two tokens. -/
def isGap (c : Char) : Bool := c == ' ' || c == '\t' || c == '\r' || c == '\n'

/-- The ranges of the characters with the Unicode property White_Space, as code points. -/
def blankRanges : List (Nat × Nat) :=
  [(0x09, 0x0D), (0x20, 0x20), (0x85, 0x85), (0xA0, 0xA0), (0x1680, 0x1680), (0x2000, 0x200A),
    (0x2028, 0x2029), (0x202F, 0x202F), (0x205F, 0x205F), (0x3000, 0x3000)]

/-- White space in the sense of the Unicode standard. -/
def isBlank (c : Char) : Bool := blankRanges.any fun r => r.1 ≤ c.toNat && c.toNat ≤ r.2

theorem isBlank_of_isGap {c : Char} (h : isGap c = true) : isBlank c = true := by
  simp only [isGap, Bool.or_eq_true, beq_iff_eq] at h
  rcases h with ((rfl | rfl) | rfl) | rfl <;> decide

end SketchSolver.Text

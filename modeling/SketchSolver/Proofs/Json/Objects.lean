import SketchSolver.Json.Writing
import SketchSolver.Proofs.Json.Grammar

/-!
# Written objects

The text of an object with one member a line writes the object of these members
(`written_prettyObject`), if its keys are `Plain`, so that they stand for themselves.

The layout is that of a text that is meant to be read by people: a brace, the members on lines
of their own with two blanks in front, each but the last with a comma behind it, and a brace.
To the grammar line breaks and blanks are white space around elements and keys, hence the
lemma is an induction on the list of members, in which the white space is put where the rules
want it.

What the text of a content writes is a hypothesis, one for each member. So the lemma is about
any record, and settings are the only one for which it is used.
-/

namespace SketchSolver.Json

/-- Every character stands for itself in a string. -/
def Plain (s : String) : Prop := ∀ c ∈ s.toList, 0x20 ≤ c.toNat ∧ c ≠ '"' ∧ c ≠ '\\'

-- The list is named: a search may find the instance that goes through every character there is.
instance : DecidablePred Plain := fun s => List.decidableBAll _ s.toList

/-- Characters that stand for themselves make the text that they are. -/
theorem characters?_map_char (cs : List Char) : characters? (cs.map .char) = some cs := by
  induction cs with
  | nil => rfl
  | cons c cs ih => rw [List.map_cons, characters?, ih]; rfl

/-- A plain key between quotes is a string. -/
theorem quoted_of_plain {s : String} (plain : Plain s) :
    Quoted (some s) ('"' :: (s.toList ++ ['"'])) := by
  have spelling : ∀ cs : List Char, (∀ c ∈ cs, 0x20 ≤ c.toNat ∧ c ≠ '"' ∧ c ≠ '\\') →
      Spelling (cs.map .char) cs := by
    intro cs
    induction cs with
    | nil => exact fun _ => .nil
    | cons c cs ih =>
      intro all
      obtain ⟨printable, notQuote, notEscape⟩ := all c List.mem_cons_self
      exact .cons (.plain printable notQuote notEscape)
        (ih fun d mem => all d (List.mem_cons_of_mem c mem))
  have text : textOf (s.toList.map .char) = some s := by
    unfold textOf
    rw [characters?_map_char, Option.map_some, String.ofList_toList]
  rw [← text]
  exact .mk (spelling s.toList plain)

variable {ι : Type} {key text : ι → String} {value : ι → Value} {is : List ι}

/-- The lines of an object, between its braces. -/
def lines (ms : List (String × String)) : String :=
  "\n" ++ ",\n".intercalate (ms.map fun (k, v) => "  \"" ++ k ++ "\": " ++ v) ++ "\n"

/-- White space can be checked character by character. -/
theorem blank_of_all (cs : List Char) (all : cs.all isSpace = true) : Blank cs :=
  List.all_eq_true.mp all

/-- Lines with a member each are members with commas between them. -/
theorem written_lines (nonempty : is ≠ []) (plain : ∀ i ∈ is, Plain (key i))
    (written : ∀ i ∈ is, (Node.value (value i)).Written (text i).toList) :
    (Node.members (is.map fun i => (some (key i), value i))).Written
      (lines (is.map fun i => (key i, text i))).toList := by
  induction is with
  | nil => exact absurd rfl nonempty
  | cons i is ih =>
    have quoted := quoted_of_plain (plain i List.mem_cons_self)
    have element (gap : List Char) (blank : Blank gap) :=
      Node.Written.element (blank_of_all [' '] rfl) (written i List.mem_cons_self) blank
    have before : Blank ['\n', ' ', ' '] := blank_of_all _ rfl
    cases is with
    | nil =>
      have := Node.Written.lastMember before quoted (blank_of_all [] rfl)
        (element ['\n'] (blank_of_all _ rfl))
      simpa [lines, String.toList_append, List.append_assoc] using this
    | cons j is =>
      have := Node.Written.nextMember before quoted (blank_of_all [] rfl)
        (element [] (blank_of_all _ rfl)) (ih (List.cons_ne_nil j is)
          (fun k mem => plain k (List.mem_cons_of_mem i mem))
          fun k mem => written k (List.mem_cons_of_mem i mem))
      simpa [lines, String.toList_append, List.append_assoc, String.intercalate_cons_cons]
        using this

/-- **The text of an object writes it.** -/
theorem written_prettyObject (nonempty : is ≠ []) (plain : ∀ i ∈ is, Plain (key i))
    (written : ∀ i ∈ is, (Node.value (value i)).Written (text i).toList) :
    (Node.value (.object (is.map fun i => (some (key i), value i)))).Written
      (prettyObject (is.map fun i => (key i, text i))).toList := by
  have := Node.Written.object (written_lines nonempty plain written)
  simpa [lines, prettyObject, String.toList_append, List.append_assoc] using this

end SketchSolver.Json

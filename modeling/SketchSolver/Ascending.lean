/-!
# Sets as ascending lists

A set of ids is kept as the list of its members in ascending order, without repetitions, so
two equal sets are equal lists.

The program keeps its ordered sets in trees. What it asks of them is here: a member is entered
(`insert`), and the members of a list are brought into order (`ofList`), which also stands for
sorting a list and dropping repetitions. A member is taken out by a filter where it is needed.
Sets that are only asked for membership are plain lists.
-/

namespace SketchSolver.Ascending

variable {β : Type} [LT β] [DecidableLT β]

/-- The set with one more member. -/
def insert (x : β) : List β → List β
  | [] => [x]
  | y :: ys =>
    if x < y then x :: y :: ys
    else if y < x then y :: insert x ys
    else y :: ys

/-- The set of the members of a list. -/
def ofList (xs : List β) : List β := xs.foldl (fun set x => insert x set) []

end SketchSolver.Ascending

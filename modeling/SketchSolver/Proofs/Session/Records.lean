import SketchSolver.Proofs.Session.Deeds

/-!
# Records in order

The records of a session are in the order of spaces and, outside a transaction, in the
order of codes within each space (`Filed.reloadable`). A session whose spaces are empty
creates the constraints of such records anew, on any sketch that has their entities
(`Blank.rebuild`).

A record tells the code of a kind, the entities and the space, and nothing else. The code
determines the kind (`Kind.ofCode?_code`, `Kind.code_of_ofCode?`), so what is created from
a record has the same record again, once it is hosted by the space that the record names.
Creating it succeeds because the sketch has the entities, with as many parameters as the
kind reads; that is what `Affords` says, and it follows from the traces of the constraint
on the sketch where it was first created.

Why the order matters is not seen here but when the batch ends: sorting a list that is
sorted already leaves it alone, and so the records come out as they went in.

Spaces are added as records name them. Since the records are in the order of spaces, each
is added when its first record comes, and all of them stay empty until the batch is added
(`Blank`).
-/

namespace SketchSolver

variable {α : Type}

/-- The code of a kind is read back as the kind. -/
theorem Kind.ofCode?_code (kind : Kind) : ofCode? kind.code = some kind := by
  cases kind <;> rfl

/-- A kind that is read from a code has this code. -/
theorem Kind.code_of_ofCode? {code : Nat} {kind : Kind} (known : ofCode? code = some kind) :
    kind.code = code := by
  unfold ofCode? at known
  simpa using List.find?_some known

/-- The constraint of a record is created where its entities are. -/
theorem Constraint.ofRecord_of_affords {sk : Sketch α} {r : Record} {kind : Kind}
    (known : Kind.ofCode? r.kind = some kind) (affords : sk.Affords kind r.entities) :
    ∃ c, ofRecord sk r = .ok (c, { sk with constraintCount := sk.constraintCount + 1 }) ∧
      c.Fits ∧ ∀ space, { c with space }.record = { r with space } := by
  obtain ⟨params, fits, created⟩ := Sketch.create_of_affords affords
  refine ⟨{ id := ⟨sk.constraintCount + 1⟩, kind, entities := r.entities, params }, ?_, fits,
    fun space => ?_⟩
  · unfold ofRecord
    rw [known]
    exact created
  · unfold record
    rw [Kind.code_of_ofCode? known]

/-- A constraint as the space at an index hosts it. -/
def Space.hostedAt (p : Nat × Constraint) : Constraint := { p.2 with space := some p.1 }

namespace Session

open Space (hostedAt)

variable {s s' : Session α} {sk : Sketch α} {records : List Record}

/-- The sketch has the entities of all records. Each record tells its space, and they are in the
order of spaces, and of codes within a space. -/
structure Reloadable (sk : Sketch α) (records : List Record) : Prop where
  placed : ∀ r ∈ records, ∃ i, r.space = some i
  affords : ∀ r ∈ records, ∃ kind, Kind.ofCode? r.kind = some kind ∧ sk.Affords kind r.entities
  order : records.Pairwise fun r q =>
    r.space.getD 0 < q.space.getD 0 ∨ r.space = q.space ∧ r.kind ≤ q.kind

/-! ## The records of a session -/

/-- **Outside a transaction the records of a session can be restored** on a sketch that has the
entities. -/
theorem Filed.reloadable (filed : s.Filed) (idle : s.inTransaction = false)
    (there : ∀ c ∈ s.constraints, ∀ id ∈ c.entities, s.sketch.contains id)
    (redrawn : s.sketch.Redrawn sk) : Reloadable sk s.records := by
  have hosted : ∀ c ∈ s.constraints, (∃ i, c.space = some i) ∧ s.sketch.Traces c := by
    intro c hc
    obtain ⟨sp, mem, hc⟩ := List.mem_flatMap.mp hc
    exact ((filed.each sp mem).hosted c hc).imp_left fun space => ⟨sp.index, space⟩
  have all := filed.idle idle
  have apart : s.spaces.Pairwise fun sp tp => sp.index < tp.index := by
    refine List.pairwise_map.mp ?_
    rw [filed.indices]
    exact List.pairwise_lt_range
  refine ⟨fun r hr => ?_, fun r hr => ?_,
    List.pairwise_map.mpr (List.pairwise_flatMap.mpr ⟨?_, ?_⟩)⟩
  · obtain ⟨c, hc, rfl⟩ := List.mem_map.mp hr
    exact (hosted c hc).1
  · obtain ⟨c, hc, rfl⟩ := List.mem_map.mp hr
    exact ⟨c.kind, Kind.ofCode?_code c.kind, (hosted c hc).2.affords (there c hc) redrawn⟩
  · intro sp mem
    have filed := filed.each sp mem
    refine (filed.sorted (all sp mem)).imp_of_mem fun hc hd le => Or.inr ⟨?_, le⟩
    exact (filed.hosted _ hc).1.trans (filed.hosted _ hd).1.symm
  · refine apart.imp_of_mem fun hsp htp lt c hc d hd => Or.inl ?_
    have first := ((filed.each _ hsp).hosted c hc).1
    have second := ((filed.each _ htp).hosted d hd).1
    show c.space.getD 0 < d.space.getD 0
    rw [first, second]
    exact lt

/-! ## Creating the constraints of records -/

/-- All spaces are empty, and at the positions of their indices. -/
structure Blank (s : Session α) : Prop where
  indices : s.spaces.map (·.index) = List.range s.spaces.length
  empty : ∀ sp ∈ s.spaces, sp.constraints = [] ∧ sp.conflicting = []

namespace Blank

/-- The only space of a new session is empty. -/
theorem create (sketch : Sketch α) (settings : Settings α) : (create sketch settings).Blank := by
  refine ⟨rfl, fun sp mem => ?_⟩
  obtain rfl := List.mem_singleton.mp mem
  exact ⟨rfl, rfl⟩

/-- Adding spaces adds empty ones at the end, and leaves the sketch. -/
theorem addSpaces : ∀ (missing : List Nat) {s : Session α}, s.Blank →
    (missing.foldl (fun s _ => s.addSpace.2) s).Blank ∧
      (missing.foldl (fun s _ => s.addSpace.2) s).sketch = s.sketch ∧
      (missing.foldl (fun s _ => s.addSpace.2) s).spaces.length = s.spaces.length + missing.length
  | [], _, blank => ⟨blank, rfl, rfl⟩
  | _ :: missing, s, blank => by
    have added : s.addSpace.2.Blank := by
      refine ⟨indices_addSpace blank.indices, fun sp mem => ?_⟩
      rcases List.mem_append.mp mem with old | new
      · exact blank.empty sp old
      · obtain rfl := List.mem_singleton.mp new
        exact ⟨rfl, rfl⟩
    obtain ⟨blank', sketch, length⟩ := addSpaces missing added
    refine ⟨blank', sketch, length.trans ?_⟩
    unfold addSpace
    rw [List.length_append, List.length_singleton, List.length_cons]
    omega

/-- As many spaces are added as an index needs, none if there are enough. -/
theorem addSpacesUpTo (blank : s.Blank) (index : Nat) : (s.addSpacesUpTo index).Blank ∧
    (s.addSpacesUpTo index).sketch = s.sketch ∧ index < (s.addSpacesUpTo index).spaces.length ∧
    s.spaces.length ≤ (s.addSpacesUpTo index).spaces.length := by
  obtain ⟨blank', sketch, length⟩ := blank.addSpaces (List.range (index + 1 - s.spaces.length))
  rw [List.length_range] at length
  unfold Session.addSpacesUpTo
  exact ⟨blank', sketch, by omega, by omega⟩

/-- **The constraints of records are created**, and the spaces are there that they are meant for. -/
theorem rebuild : ∀ {records : List Record} {s : Session α}, s.Blank →
    (∀ r ∈ records, ∃ i, r.space = some i) →
    (∀ r ∈ records, ∃ kind, Kind.ofCode? r.kind = some kind ∧ s.sketch.Affords kind r.entities) →
    ∃ cs s', rebuild records s = (.ok cs, s') ∧ s'.Blank ∧
      cs.map (fun p => (hostedAt p).record) = records ∧
      (∀ p ∈ cs, p.2.Fits ∧ p.1 < s'.spaces.length) ∧ s.spaces.length ≤ s'.spaces.length
  | [], s, blank, _, _ =>
    ⟨[], s, rfl, blank, rfl, fun p mem => absurd mem List.not_mem_nil, Nat.le_refl _⟩
  | r :: rest, s, blank, placed, affords => by
    obtain ⟨⟨i, space⟩, placed⟩ := List.forall_mem_cons.mp placed
    obtain ⟨⟨kind, known, first⟩, later⟩ := List.forall_mem_cons.mp affords
    obtain ⟨blank₁, same, inside, longer⟩ := blank.addSpacesUpTo i
    unfold Session.rebuild
    simp only
    rw [space, Option.getD_some]
    generalize s.addSpacesUpTo i = s₁ at blank₁ same inside longer
    rw [← same] at first later
    obtain ⟨c, made, fits, record⟩ := Constraint.ofRecord_of_affords known first
    rw [made]
    simp only
    -- creating a constraint counts it and does nothing to the spaces
    have blank₂ : { s₁ with sketch := { s₁.sketch with
        constraintCount := s₁.sketch.constraintCount + 1 } }.Blank :=
      ⟨blank₁.indices, blank₁.empty⟩
    obtain ⟨cs, s', rebuilt, blank', records, each, longer'⟩ := rebuild blank₂ placed fun q hq =>
      (later q hq).imp fun _ both => both.imp_right fun affords => affords.of_entities rfl
    rw [rebuilt]
    have longer' : s₁.spaces.length ≤ s'.spaces.length := longer'
    have head : (hostedAt (i, c)).record = r := by
      unfold hostedAt
      rw [record, ← space]
    exact ⟨_, s', rfl, blank', by rw [List.map_cons, records, head],
      List.forall_mem_cons.mpr ⟨⟨fits, by simp only; omega⟩, each⟩, by omega⟩

end Blank

end Session

end SketchSolver

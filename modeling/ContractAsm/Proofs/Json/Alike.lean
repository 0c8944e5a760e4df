import ContractAsm.Schema.Length

/-!
# Documents that differ in spare members

Two documents are alike if one comes from the other by adding members to its objects, and leaving
members out of them, at any depth, as long as all these members are spare and a length that both
documents have can be compared in both or in neither. Objects are compared by looking names up, so
the order of their members does not count.
-/

namespace ContractAsm

namespace Json

open Schema (isComparable)

mutual

/-- The values differ in spare members alone. -/
inductive Alike (spare : Text → Json → Prop) : Json → Json → Prop where
  | same {value : Json} : Alike spare value value
  | array {elements others : List Json} (each : AlikeEach spare elements others) :
      Alike spare (.array elements) (.array others)
  | object {members others : List (Text × Json)}
      (each : ∀ name, AlikeMember spare name (find? name members) (find? name others)) :
      Alike spare (.object members) (.object others)

inductive AlikeEach (spare : Text → Json → Prop) : List Json → List Json → Prop where
  | nil : AlikeEach spare [] []
  | cons {element other : Json} {elements others : List Json} (first : Alike spare element other)
      (rest : AlikeEach spare elements others) : AlikeEach spare (element :: elements) (other :: others)

/-- The members under a name are alike, or one of them is spare and the other one is missing. -/
inductive AlikeMember (spare : Text → Json → Prop) : Text → Option Json → Option Json → Prop where
  | absent {name : Text} : AlikeMember spare name none none
  | added {name : Text} {value : Json} (allowed : spare name value) : AlikeMember spare name none (some value)
  | dropped {name : Text} {value : Json} (allowed : spare name value) : AlikeMember spare name (some value) none
  | both {name : Text} {value other : Json} (alike : Alike spare value other)
      (steady : name = "length" → isComparable other = isComparable value) :
      AlikeMember spare name (some value) (some other)

end

variable {spare : Text → Json → Prop}

theorem AlikeMember.refl {name : Text} (value : Option Json) : AlikeMember spare name value value := by
  cases value with
  | none => exact .absent
  | some => exact .both .same fun _ => rfl

/-- Under a name that no spare member has, both values are there and alike, or none is. -/
theorem AlikeMember.rel {name : Text} {value other : Option Json}
    (member : AlikeMember spare name value other) (needed : ∀ value, ¬ spare name value) :
    Option.Rel (Alike spare) value other := by
  cases member with
  | absent => exact .none
  | added allowed => exact absurd allowed (needed _)
  | dropped allowed => exact absurd allowed (needed _)
  | both alike _ => exact .some alike

theorem alike_cases {motive : Option Json → Option Json → Prop} {value other : Option Json}
    (alike : Option.Rel (Alike spare) value other) (same : ∀ value, motive value value)
    (array : ∀ elements others, value = some (.array elements) → AlikeEach spare elements others →
      motive (some (.array elements)) (some (.array others)))
    (object : ∀ members others, value = some (.object members) →
      (∀ name, AlikeMember spare name (find? name members) (find? name others)) →
      motive (some (.object members)) (some (.object others))) : motive value other := by
  cases alike with
  | none => exact same none
  | some alike =>
    cases alike with
    | same => exact same _
    | array each => exact array _ _ rfl each
    | object each => exact object _ _ rfl each

theorem alike_noObject {motive : Option Json → Option Json → Prop} {value other : Option Json}
    (none : ∀ members, value = some (.object members) → False) (alike : Option.Rel (Alike spare) value other)
    (same : ∀ value, motive value value)
    (array : ∀ elements others, AlikeEach spare elements others →
      motive (some (.array elements)) (some (.array others))) : motive value other :=
  alike_cases alike same (fun elements others _ => array elements others)
    fun members _ given _ => (none members given).elim

theorem AlikeEach.isEmpty_eq {elements others : List Json} (each : AlikeEach spare elements others) :
    others.isEmpty = elements.isEmpty := by
  cases each with
  | nil => rfl
  | cons => rfl

/-! ## Added members -/

theorem Alike.add {name : Text} {value : Json} {members : List (Text × Json)}
    (fresh : find? name members = none) (allowed : spare name value) :
    Alike spare (.object members) (.object ((name, value) :: members)) := by
  refine .object fun other => ?_
  rw [find?]
  split
  · rename_i same
    rw [← same, fresh]
    exact .added allowed
  · exact .refl _

theorem Alike.inside {name : Text} {value other : Json} (front back : List (Text × Json))
    (alike : Alike spare value other) (steady : name = "length" → isComparable other = isComparable value) :
    Alike spare (.object (front ++ (name, value) :: back)) (.object (front ++ (name, other) :: back)) := by
  refine .object fun key => ?_
  induction front with
  | nil =>
    rw [List.nil_append, List.nil_append, find?, find?]
    split
    · rename_i same
      subst same
      exact .both alike steady
    · exact .refl _
  | cons head rest ih =>
    rw [List.cons_append, List.cons_append, find?, find?]
    split
    · exact .refl _
    · exact ih

end Json

end ContractAsm

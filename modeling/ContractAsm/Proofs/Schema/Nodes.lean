import ContractAsm.Proofs.Json.Paths
import ContractAsm.Proofs.Schema.Exactness

/-!
# Where nodes were read from

What a reader finds in the kept part of a document stands in the document too, in the member of
the same name and at the same index.
-/

namespace ContractAsm.Schema

/-- The document passes the schema of its type, and what is kept of it is read as the value. -/
def StandsFor {α : Type} (type : NodeType) (read : Json → Option α) (document : Json) (value : α) : Prop :=
  ∃ kept, type.schema.examine (some document) = .accept (some kept) ∧ read kept = some value

variable {α : Type} {type : NodeType} {read : Json → Option α} {document kept : Json} {value : α}

theorem Keeps.standsFor (keeps : Keeps (.node type) (some document) (some kept))
    (known : read kept = some value) : StandsFor type read document value := by
  cases keeps with
  | node keeps => exact ⟨kept, keeps.examine_eq (orderly_schema type), known⟩

theorem StandsFor.keeps (stands : StandsFor type read document value) :
    ∃ kept, Keeps type.schema (some document) (some kept) ∧ read kept = some value := by
  obtain ⟨kept, accepted, known⟩ := stands
  have keeps := examine_keeps type.schema (some document) (by rw [accepted]; rfl)
  rw [accepted] at keeps
  exact ⟨kept, keeps, known⟩

/-! ## Members -/

theorem Keeps.member {fields : List (Text × Schema)} {name : Text} {field : Schema}
    (keeps : Keeps (.object fields) (some document) (some kept)) (distinct : (fields.map Prod.fst).Nodup)
    (declared : (name, field) ∈ fields) : Keeps field (document.member? name) (kept.member? name) := by
  cases keeps with
  | object each => exact each.find?_keeps distinct declared

theorem Keeps.memberOf {fields : List (Text × Schema)} {name : Text} {field : Schema}
    (keeps : Keeps type.schema (some document) (some kept)) (shape : type.schema = .object fields)
    (declared : (name, field) ∈ fields) : Keeps field (document.member? name) (kept.member? name) := by
  rw [shape] at keeps
  exact keeps.member (distinct_schema shape) declared

theorem Keeps.ofOptional {inner : Schema} {given : Option Json} {value : Json}
    (keeps : Keeps (.optional inner) given (some value)) : Keeps inner given (some value) := by
  cases keeps with
  | optional keeps => exact keeps

/-- A member that is a node. -/
theorem Keeps.walk_member {name : Text} {inner : Json}
    (keeps : Keeps (.node type) (document.member? name) (some inner)) (known : read inner = some value) :
    ∃ there, document.member? name = some there ∧ StandsFor type read there value := by
  obtain ⟨there, found⟩ := Option.isSome_iff_exists.mp (keeps.given rfl)
  rw [found] at keeps
  exact ⟨there, found, keeps.standsFor known⟩

/-- Every member that is kept is declared, and its value fits. -/
theorem KeepsFields.declared {fields : List (Text × Schema)} {members kept : List (Text × Json)}
    (each : KeepsFields fields members kept) {name : Text} {value : Json} (listed : (name, value) ∈ kept) :
    ∃ field, (name, field) ∈ fields ∧ Fits field (some value) :=
  match each with
  | .nil => nomatch listed
  | .absent _ rest => by
    obtain ⟨field, declared, fits⟩ := rest.declared listed
    exact ⟨field, List.mem_cons_of_mem _ declared, fits⟩
  | .present first rest => by
    rcases List.mem_cons.mp listed with same | later
    · cases same
      exact ⟨_, List.mem_cons_self, _, first⟩
    · obtain ⟨field, declared, fits⟩ := rest.declared later
      exact ⟨field, List.mem_cons_of_mem _ declared, fits⟩

theorem KeepsFields.find?_of_mem {fields : List (Text × Schema)} {members kept : List (Text × Json)}
    (each : KeepsFields fields members kept) (distinct : (fields.map Prod.fst).Nodup) {name : Text}
    {value : Json} (listed : (name, value) ∈ kept) : Json.find? name kept = some value := by
  induction fields generalizing kept with
  | nil =>
    cases each
    contradiction
  | cons head rest ih =>
    obtain ⟨key, own⟩ := head
    obtain ⟨unique, others⟩ := List.nodup_cons.mp distinct
    cases each with
    | absent _ each => exact ih each others listed
    | present _ each =>
      rcases List.mem_cons.mp listed with same | later
      · cases same
        rw [Json.find?, if_pos rfl]
      · obtain ⟨field, declared, -⟩ := each.declared later
        have other : key ≠ name := fun same => unique (List.mem_map.mpr ⟨_, declared, same.symm⟩)
        rw [Json.find?, if_neg other]
        exact ih each others later

/-! ## Elements -/

theorem KeepsElements.getElem? {item : Schema} {elements more : List Json} {index : Nat} {element : Json}
    (each : KeepsElements item elements more) (found : more[index]? = some element) :
    ∃ given, elements[index]? = some given ∧ Keeps item (some given) (some element) := by
  induction index generalizing elements more with
  | zero =>
    cases each with
    | nil => contradiction
    | cons first rest =>
      cases found
      exact ⟨_, rfl, first⟩
  | succ index ih =>
    cases each with
    | nil => contradiction
    | cons first rest => exact ih rest found

theorem mapM_cons_eq_some {first : Json} {rest : List Json} {values : List α} :
    (first :: rest).mapM read = some values ↔
      ∃ value others, read first = some value ∧ rest.mapM read = some others ∧ values = value :: others := by
  simp only [List.mapM_cons, Option.bind_eq_bind, Option.bind_eq_some_iff, Option.pure_def, Option.some.injEq]
  constructor
  · rintro ⟨value, here, others, behind, rfl⟩
    exact ⟨value, others, here, behind, rfl⟩
  · rintro ⟨value, others, here, behind, rfl⟩
    exact ⟨value, here, others, behind, rfl⟩

theorem getElem?_mapM {documents : List Json} {values : List α} {index : Nat}
    (known : documents.mapM read = some values) (found : values[index]? = some value) :
    ∃ there, documents[index]? = some there ∧ read there = some value := by
  induction documents generalizing values index with
  | nil =>
    cases known
    contradiction
  | cons first rest ih =>
    obtain ⟨head, others, here, behind, rfl⟩ := mapM_cons_eq_some.mp known
    cases index with
    | zero =>
      cases found
      exact ⟨first, rfl, here⟩
    | succ index => exact ih behind found

theorem mem_of_mapM {documents : List Json} {values : List α} (known : documents.mapM read = some values)
    (listed : document ∈ documents) : ∃ value ∈ values, read document = some value := by
  induction documents generalizing values with
  | nil => contradiction
  | cons first rest ih =>
    obtain ⟨head, others, here, behind, rfl⟩ := mapM_cons_eq_some.mp known
    rcases List.mem_cons.mp listed with rfl | later
    · exact ⟨head, List.mem_cons_self, here⟩
    · obtain ⟨value, among, reads⟩ := ih behind later
      exact ⟨value, List.mem_cons_of_mem _ among, reads⟩

theorem Keeps.list {item : Schema} {nonEmpty : Bool} {given : Option Json} {list : Json} {more : List Json}
    (keeps : Keeps (.array item nonEmpty) given (some list)) (listed : list.array? = some more) :
    ∃ elements, given = some (.array elements) ∧ KeepsElements item elements more := by
  cases keeps with
  | array _ each =>
    cases listed
    exact ⟨_, rfl, each⟩

theorem Keeps.walk_element {name : Text} {values : List α} {index : Nat}
    (keeps : Keeps (.listOf (.node type)) (document.member? name) (kept.member? name))
    (known : kept.listAt? name read = some values) (found : values[index]? = some value) :
    ∃ there, document.walk? [name, (toString index : Text)] = some there ∧ StandsFor type read there value := by
  simp only [Json.listAt?, Option.bind_eq_bind, Option.bind_eq_some_iff] at known
  obtain ⟨list, there, more, listed, each⟩ := known
  rw [there] at keeps
  obtain ⟨elements, here, within⟩ := keeps.list listed
  obtain ⟨inner, place, reads⟩ := getElem?_mapM each found
  obtain ⟨element, same, keeps⟩ := within.getElem? place
  exact ⟨element, Json.walk?_element here same, keeps.standsFor reads⟩

end ContractAsm.Schema

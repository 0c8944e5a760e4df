import ContractAsm.Asm.Document
import ContractAsm.Proofs.Schema.Exactness
import Mathlib.Data.List.Forall2

/-!
# Values that are kept whole

A value that a schema keeps whole is accepted, and no member of it is dropped. Documents that
are put together from their members, in the order in which the schema declares these, are kept
whole as soon as their members are. So what was kept of a value is kept whole when it is checked
again.
-/

namespace ContractAsm.Schema

/-- The schema accepts the value and keeps all of it. -/
def KeepsWhole (schema : Schema) (value : Option Json) : Prop := Keeps schema value value

/-! ## Members -/

/-- The member has the declared name, and its value is kept whole, even if there is none. -/
def MemberWhole (declared : Text × Schema) (member : Text × Option Json) : Prop :=
  declared.1 = member.1 ∧ KeepsWhole declared.2 member.2

def present (members : List (Text × Option Json)) : List (Text × Json) :=
  members.filterMap fun (name, value) => value.map fun there => (name, there)

theorem find?_append_of_notMem {name : Text} {front members : List (Text × Json)}
    (other : name ∉ front.map Prod.fst) :
    Json.find? name (front ++ members) = Json.find? name members := by
  induction front with
  | nil => rfl
  | cons head rest ih =>
    rw [List.map_cons, List.mem_cons, not_or] at other
    rw [List.cons_append, Json.find?, if_neg (Ne.symm other.1), ih other.2]

section

variable {fields : List (Text × Schema)} {members : List (Text × Option Json)}

theorem names_eq (each : List.Forall₂ MemberWhole fields members) :
    members.map Prod.fst = fields.map Prod.fst := by
  induction each with
  | nil => rfl
  | cons first _ ih => rw [List.map_cons, List.map_cons, first.1, ih]

theorem mem_names_of_present {name : Text} (there : name ∈ (present members).map Prod.fst) :
    name ∈ members.map Prod.fst := by
  obtain ⟨⟨_, value⟩, member, rfl⟩ := List.mem_map.mp there
  obtain ⟨⟨other, found⟩, listed, same⟩ := List.mem_filterMap.mp member
  obtain ⟨_, -, pair⟩ := Option.map_eq_some_iff.mp same
  cases pair
  exact List.mem_map_of_mem listed

theorem keepsFields_present (each : List.Forall₂ MemberWhole fields members)
    (distinct : (fields.map Prod.fst).Nodup) (front : List (Text × Json))
    (apart : ∀ name ∈ fields.map Prod.fst, name ∉ front.map Prod.fst) :
    KeepsFields fields (front ++ present members) (present members) := by
  induction each generalizing front with
  | nil => exact .nil
  | @cons declared member fields members first rest ih =>
    obtain ⟨name, field⟩ := declared
    obtain ⟨_, value⟩ := member
    obtain ⟨rfl, whole⟩ := first
    rw [List.map_cons, List.nodup_cons] at distinct
    rw [List.map_cons, List.forall_mem_cons] at apart
    have undeclared : name ∉ (present members).map Prod.fst := by
      intro there
      exact distinct.1 (names_eq rest ▸ mem_names_of_present there)
    cases value with
    | none =>
      refine .absent ?_ (ih distinct.2 front apart.2)
      show Keeps field (Json.find? name (front ++ present members)) none
      rw [find?_append_of_notMem apart.1, ← List.append_nil (present members),
        find?_append_of_notMem undeclared]
      exact whole
    | some value =>
      have beyond : ∀ other ∈ fields.map Prod.fst, other ∉ (front ++ [(name, value)]).map Prod.fst := by
        intro other later inside
        rw [List.map_append, List.mem_append] at inside
        rcases inside with before | own
        · exact apart.2 other later before
        · exact distinct.1 (List.mem_singleton.mp own ▸ later)
      have others := ih distinct.2 (front ++ [(name, value)]) beyond
      rw [List.append_assoc, List.singleton_append] at others
      refine .present ?_ others
      show Keeps field (Json.find? name (front ++ (name, value) :: present members)) (some value)
      rw [find?_append_of_notMem apart.1, Json.find?, if_pos rfl]
      exact whole

theorem KeepsWhole.ofPresent (each : List.Forall₂ MemberWhole fields members)
    (distinct : (fields.map Prod.fst).Nodup) :
    KeepsWhole (.object fields) (some (.ofPresent members)) :=
  .object (keepsFields_present each distinct [] fun _ _ => List.not_mem_nil)

end

/-! ## Values -/

theorem KeepsWhole.text (text : Text) : KeepsWhole .text (some (.string text)) := .string nofun

theorem KeepsWhole.optional {inner : Schema} {value : Option Json}
    (whole : ∀ there ∈ value, KeepsWhole inner (some there)) : KeepsWhole (.optional inner) value := by
  cases value with
  | none => exact .absent
  | some there => exact Keeps.optional (whole there rfl)

theorem keepsElements_self {item : Schema} {elements : List Json}
    (each : ∀ element ∈ elements, KeepsWhole item (some element)) : KeepsElements item elements elements := by
  induction elements with
  | nil => exact .nil
  | cons element rest ih =>
    rw [List.forall_mem_cons] at each
    exact .cons each.1 (ih each.2)

theorem KeepsWhole.list {item : Schema} {elements : List Json}
    (each : ∀ element ∈ elements, KeepsWhole item (some element)) :
    KeepsWhole (.listOf item) (some (.array elements)) :=
  .array nofun (keepsElements_self each)

theorem KeepsWhole.nonEmptyList {item : Schema} {elements : List Json} (some : elements ≠ [])
    (each : ∀ element ∈ elements, KeepsWhole item (Option.some element)) :
    KeepsWhole (.nonEmptyListOf item) (Option.some (.array elements)) :=
  .array (fun _ => List.isEmpty_eq_false_iff.mpr some) (keepsElements_self each)

theorem KeepsWhole.option {type inner : NodeType} {options : List Schema} {value : Option Json}
    (whole : KeepsWhole (.node inner) value) (shape : type.schema = .union options)
    (listed : .node inner ∈ options) : KeepsWhole (.node type) value := by
  refine Keeps.node ?_
  rw [shape]
  exact .union listed whole

/-! ## What is kept is kept whole -/

theorem KeepsElements.isEmpty_eq {item : Schema} {elements kept : List Json}
    (each : KeepsElements item elements kept) : kept.isEmpty = elements.isEmpty := by
  cases each with
  | nil => rfl
  | cons => rfl

mutual

/-- Checked again, what was kept loses nothing more. -/
theorem Keeps.again {schema : Schema} {value kept : Option Json} (keeps : Keeps schema value kept)
    (orderly : Orderly schema) : KeepsWhole schema kept :=
  match keeps with
  | .string long => .string long
  | .boolean => .boolean
  | .offset whole least most => .offset whole least most
  | .literal => .literal
  | .oneOf declared => .oneOf declared
  | .array long each => .array (each.isEmpty_eq ▸ long) (KeepsElements.again each orderly)
  | .object each => by
    obtain ⟨members, whole, rfl⟩ := KeepsFields.again each orderly.2
    exact KeepsWhole.ofPresent whole orderly.1
  | .union listed inner => .union listed (Keeps.again inner (orderly.2.mem listed))
  | .absent => .absent
  | .optional inner => by
    have whole := Keeps.again inner orderly
    exact .optional fun there found => found ▸ whole
  | .null => .null
  | .nullable inner => .nullable (Keeps.again inner orderly)
  | .node inner => .node (Keeps.again inner (orderly_schema _))
  | .deferred inner => .deferred (Keeps.again inner (orderly_schema _))

theorem KeepsElements.again {item : Schema} {elements kept : List Json}
    (each : KeepsElements item elements kept) (orderly : Orderly item) : KeepsElements item kept kept :=
  match each with
  | .nil => .nil
  | .cons first rest => .cons (Keeps.again first orderly) (KeepsElements.again rest orderly)

theorem KeepsFields.again {fields : List (Text × Schema)} {members kept : List (Text × Json)}
    (each : KeepsFields fields members kept) (orderly : OrderlyFields fields) :
    ∃ wholes, List.Forall₂ MemberWhole fields wholes ∧ present wholes = kept :=
  match each with
  | .nil => ⟨[], .nil, rfl⟩
  | .absent first rest => by
    obtain ⟨wholes, others, same⟩ := KeepsFields.again rest orderly.2
    exact ⟨(_, none) :: wholes, .cons ⟨rfl, Keeps.again first orderly.1⟩ others, same⟩
  | .present first rest => by
    obtain ⟨wholes, others, same⟩ := KeepsFields.again rest orderly.2
    exact ⟨(_, some _) :: wholes, .cons ⟨rfl, Keeps.again first orderly.1⟩ others, congrArg _ same⟩

end

theorem Fits.whole {schema : Schema} {value : Option Json} (fits : Fits schema value)
    (orderly : Orderly schema) : KeepsWhole schema value := by
  obtain ⟨_, keeps⟩ := fits
  exact keeps.again orderly

/-! ## Nodes -/

/-- The location, if there is one, is kept whole. -/
def Placed (location : Option Location) : Prop :=
  ∀ place ∈ location, KeepsWhole (.node .sourceLocation) (some place.toJson)

theorem Placed.none : Placed none := nofun

theorem Placed.memberWhole {location : Option Location} (placed : Placed location) :
    MemberWhole ("location", NodeType.maybeLocation) (Asm.locationMember location) := by
  refine ⟨rfl, .optional fun there found => ?_⟩
  obtain ⟨place, same, rfl⟩ := Option.map_eq_some_iff.mp found
  exact placed place same

/-- A node is kept whole if its members and its location are. -/
theorem KeepsWhole.node {type : NodeType} {kind : Text} {fields : List (Text × Schema)}
    {members : List (Text × Option Json)} {location : Option Location}
    (shape : type.schema = NodeType.asmNode kind fields) (each : List.Forall₂ MemberWhole fields members)
    (placed : Placed location) :
    KeepsWhole (.node type) (some (Asm.nodeDocument kind members location)) := by
  refine Keeps.node ?_
  have distinct := distinct_schema shape
  rw [shape]
  have own : MemberWhole ("kind", .literal kind) ("kind", some (.string kind)) := ⟨rfl, .literal⟩
  have inside : List.Forall₂ MemberWhole (fields.concat ("location", NodeType.maybeLocation))
      (members ++ [Asm.locationMember location]) := by
    rw [List.concat_eq_append]
    exact List.rel_append each (.cons placed.memberWhole .nil)
  exact KeepsWhole.ofPresent (.cons own inside) distinct

theorem placed_ofOffsets {start stop : Nat} (source : Text) (low : (start : Int) ≤ largestOffset)
    (high : (stop : Int) ≤ largestOffset) : Placed (some (.ofOffsets start stop source)) := by
  have offset {value : Nat} (bound : (value : Int) ≤ largestOffset) :
      KeepsWhole .offset (some (.number (.ofNat value))) :=
    .offset rfl (Int.natCast_nonneg value) bound
  rintro place ⟨⟩
  refine Keeps.node (KeepsWhole.ofPresent ?_ (by decide))
  refine .cons ⟨rfl, offset low⟩ (.cons ⟨rfl, offset high⟩ (.cons ⟨rfl, ?_⟩ .nil))
  exact Keeps.optional (KeepsWhole.text source)

end ContractAsm.Schema

import ContractAsm.Proofs.Schema.Exactness

/-!
# Checks that break off

A check breaks off at nothing but a length that cannot be compared, so the check of a value that
holds none does not. What a schema keeps holds none, since no schema declares a length. A check
that does not break off accepts what the schema accepts, and yields what the schema keeps.
-/

namespace ContractAsm.Schema

/-! ## Declared names -/

mutual

/-- The names that the objects of a schema declare, short of those in other node types. -/
def names : Schema → List Text
  | .array item _ => names item
  | .object fields => namesOfFields fields
  | .union options => namesOfOptions options
  | .optional inner => names inner
  | .nullable inner => names inner
  | _ => []

def namesOfFields : List (Text × Schema) → List Text
  | [] => []
  | (name, field) :: rest => name :: (names field ++ namesOfFields rest)

def namesOfOptions : List Schema → List Text
  | [] => []
  | option :: rest => names option ++ namesOfOptions rest

end

def declaredNames : List Text :=
  NodeType.all.flatMap (fun type => names type.schema) ++ names DocumentType.sourceUnit.schema

theorem mem_allTypes (type : NodeType) : type ∈ NodeType.all := by
  cases type <;> decide

theorem names_node (type : NodeType) : names type.schema ⊆ declaredNames := by
  intro name declared
  exact List.mem_append_left _ (List.mem_flatMap.mpr ⟨type, mem_allTypes type, declared⟩)

theorem names_sourceUnit : names DocumentType.sourceUnit.schema ⊆ declaredNames :=
  List.subset_append_right _ _

theorem covered_cons {name : Text} {field : Schema} {fields : List (Text × Schema)} {known : List Text}
    (covered : namesOfFields ((name, field) :: fields) ⊆ known) :
    name ∈ known ∧ names field ⊆ known ∧ namesOfFields fields ⊆ known := by
  rw [namesOfFields, List.cons_subset, List.append_subset] at covered
  exact covered

theorem length_undeclared : ("length" : Text) ∉ declaredNames := by decide

/-! ## Values whose lengths can be compared -/

theorem extent_comparable {value : Option Json} (comparable : value.any holdsIncomparable = false) :
    extent value ≠ .incomparable := by
  rcases value with _ | value
  · simp [extent]
  · rw [Option.any_some] at comparable
    cases value with
    | object members =>
      rw [holdsIncomparable, Bool.or_eq_false_iff] at comparable
      exact of_decide_eq_false comparable.1
    | string | array =>
      rw [extent]
      split <;> simp
    | null | bool | number => simp [extent]

theorem find?_comparable {name : Text} {members : List (Text × Json)}
    (comparable : membersHoldIncomparable members = false) :
    (Json.find? name members).any holdsIncomparable = false := by
  induction members with
  | nil => rfl
  | cons head rest ih =>
    obtain ⟨key, value⟩ := head
    rw [membersHoldIncomparable, Bool.or_eq_false_iff] at comparable
    rw [Json.find?]
    split
    · exact comparable.1
    · exact ih comparable.2

/-- The check of a value does not break off if all lengths in it can be compared. -/
theorem breaks_comparable (schema : Schema) (value : Option Json) :
    value.any holdsIncomparable = false → breaks schema value = false := by
  refine (breaks.mutual_induct
    (fun schema value => value.any holdsIncomparable = false → breaks schema value = false)
    (fun options value => value.any holdsIncomparable = false → optionsBreak options value = false)
    (fun fields members => membersHoldIncomparable members = false → fieldsBreak fields members = false)
    (fun item elements => anyHoldsIncomparable elements = false → elementsBreak item elements = false)
    ?string ?array ?noArray ?object ?noObject ?union ?optional ?nullable ?node ?deferred ?boolean ?offset
    ?literal ?oneOf ?noOption ?option ?noField ?field ?noElement ?element).1 schema value
  case string =>
    intro value nonEmpty comparable
    rw [breaks, decide_eq_false (extent_comparable comparable), Bool.and_false]
  case array =>
    intro item nonEmpty elements ih comparable
    rw [breaks]
    exact ih comparable
  case noArray =>
    intro value item nonEmpty other comparable
    rw [breaks, decide_eq_false (extent_comparable comparable), Bool.and_false]
    exact other
  case object =>
    intro fields members ih comparable
    rw [Option.any_some, holdsIncomparable, Bool.or_eq_false_iff] at comparable
    rw [breaks]
    exact ih comparable.2
  case noObject =>
    intro value fields other _
    rw [breaks]
    exact other
  case union | optional | nullable | node | deferred =>
    intro value _ ih comparable
    rw [breaks]
    exact ih comparable
  case boolean | offset | literal | oneOf =>
    intros
    rw [breaks]
  case noOption =>
    intro value _
    rw [optionsBreak]
  case option =>
    intro value option rest first others comparable
    rw [optionsBreak, first comparable, others comparable, Bool.and_false, Bool.or_false]
  case noField =>
    intro members _
    rw [fieldsBreak]
  case field =>
    intro members name field rest first others comparable
    rw [fieldsBreak, first (find?_comparable comparable), others comparable, Bool.or_false]
  case noElement =>
    intro item _
    rw [elementsBreak]
  case element =>
    intro item element rest first others comparable
    rw [anyHoldsIncomparable, Bool.or_eq_false_iff] at comparable
    rw [elementsBreak, first comparable.1, others comparable.2, Bool.or_false]

/-! ## Checks that run to their end -/

section

variable {schema : Schema} {value kept : Option Json}

/-- It makes no difference that only some values are looked into. -/
theorem breaksOff_eq (schema : Schema) (value : Option Json) : breaksOff schema value = breaks schema value := by
  rw [breaksOff]
  cases holds : value.any holdsIncomparable with
  | true => rw [Bool.true_and]
  | false => rw [breaks_comparable schema value holds, Bool.and_false]

theorem check_of_runs (runs : breaks schema value = false) : check schema value = examine schema value := by
  rw [check, breaksOff_eq, runs]
  rfl

theorem check_of_breaks (breaks : breaks schema value = true) : check schema value = .reject [.incomparable] := by
  rw [check, breaksOff_eq, breaks]
  rfl

theorem runs_of_accepted (accepted : (check schema value).issues = []) : breaks schema value = false := by
  cases broken : breaks schema value with
  | false => rfl
  | true =>
    rw [check_of_breaks broken] at accepted
    contradiction

/-- What a check without issues yields is what the schema keeps. -/
theorem check_keeps (accepted : (check schema value).issues = []) :
    Keeps schema value (check schema value).value := by
  have same := check_of_runs (runs_of_accepted accepted)
  rw [same] at accepted ⊢
  exact examine_keeps schema value accepted

theorem Keeps.check_eq (keeps : Keeps schema value kept) (orderly : Orderly schema)
    (runs : breaks schema value = false) : check schema value = .accept kept := by
  rw [check_of_runs runs, keeps.examine_eq orderly]

end

/-! ## What is kept -/

theorem fst_mem_names {fields : List (Text × Schema)} : fields.map Prod.fst ⊆ namesOfFields fields := by
  induction fields with
  | nil => exact List.Subset.refl _
  | cons head rest ih =>
    obtain ⟨name, field⟩ := head
    rw [List.map_cons, namesOfFields]
    exact List.cons_subset_cons _ (List.subset_append_of_subset_right _ ih)

theorem names_of_mem {options : List Schema} {option : Schema} (listed : option ∈ options) :
    names option ⊆ namesOfOptions options := by
  induction options with
  | nil => contradiction
  | cons first rest ih =>
    rw [namesOfOptions]
    rcases List.mem_cons.mp listed with rfl | later
    · exact List.subset_append_left _ _
    · exact List.subset_append_of_subset_right _ (ih later)

mutual

/-- What is kept of a value holds no length at all. -/
theorem Keeps.comparable {schema : Schema} {value kept : Option Json} (keeps : Keeps schema value kept)
    (covered : names schema ⊆ declaredNames) : kept.any holdsIncomparable = false :=
  match keeps with
  | .string _ | .boolean | .offset _ _ _ | .literal | .oneOf _ | .absent | .null => rfl
  | .array _ each => KeepsElements.comparable each covered
  | @Keeps.object fields members kept each => by
    have undeclared : ("length" : Text) ∉ fields.map Prod.fst :=
      fun declared => length_undeclared (covered (fst_mem_names declared))
    have unknown := each.find?_undeclared undeclared
    rw [Option.any_some, holdsIncomparable, extent, unknown, KeepsFields.comparable each covered]
    rfl
  | .union listed inner => Keeps.comparable inner (List.Subset.trans (names_of_mem listed) covered)
  | .optional inner | .nullable inner => Keeps.comparable inner covered
  | .node inner | .deferred inner => Keeps.comparable inner (names_node _)

theorem KeepsElements.comparable {item : Schema} {elements kept : List Json}
    (each : KeepsElements item elements kept) (covered : names item ⊆ declaredNames) :
    anyHoldsIncomparable kept = false :=
  match each with
  | .nil => rfl
  | .cons first rest => by
    have own := Keeps.comparable first covered
    rw [Option.any_some] at own
    rw [anyHoldsIncomparable, own, KeepsElements.comparable rest covered, Bool.or_false]

theorem KeepsFields.comparable {fields : List (Text × Schema)} {members kept : List (Text × Json)}
    (each : KeepsFields fields members kept) (covered : namesOfFields fields ⊆ declaredNames) :
    membersHoldIncomparable kept = false :=
  match each with
  | .nil => rfl
  | .absent _ rest => KeepsFields.comparable rest (covered_cons covered).2.2
  | .present first rest => by
    obtain ⟨-, inside, later⟩ := covered_cons covered
    have own := Keeps.comparable first inside
    rw [Option.any_some] at own
    rw [membersHoldIncomparable, own, KeepsFields.comparable rest later, Bool.or_false]

end

theorem Keeps.runs {schema : Schema} {value kept : Option Json} (keeps : Keeps schema value kept)
    (covered : names schema ⊆ declaredNames) : breaks schema kept = false :=
  breaks_comparable schema kept (keeps.comparable covered)

end ContractAsm.Schema

import ContractAsm.Proofs.Schema.Wholeness
import ContractAsm.Proofs.Validation.Reports

/-!
# Ranges in accepted source units

A location of an accepted source unit ends where it starts or behind. That holds on contracts,
functions, bodies and statements, the ones that the validator looks at; a location inside inline
assembly or on a named declaration may end before it starts.
-/

namespace ContractAsm

/-! ## Locations in a document -/

mutual

/-- The values of the members named location, at any depth, but not inside members of the given names. -/
def Json.locations (skipped : List Text) : Json → List Json
  | .array elements => locationsOfEach skipped elements
  | .object members => locationsOfMembers skipped members
  | _ => []

def Json.locationsOfEach (skipped : List Text) : List Json → List Json
  | [] => []
  | element :: rest => element.locations skipped ++ locationsOfEach skipped rest

def Json.locationsOfMembers (skipped : List Text) : List (Text × Json) → List Json
  | [] => []
  | (name, value) :: rest =>
      (if skipped.contains name then [] else if name = "location" then [value] else value.locations skipped)
        ++ locationsOfMembers skipped rest

end

namespace Json

def locationsUnder (skipped : List Text) (name : Text) (value : Json) : List Json :=
  if skipped.contains name then [] else if name = "location" then [value] else value.locations skipped

theorem mem_locationsOfEach {skipped : List Text} {elements : List Json} {location : Json} :
    location ∈ locationsOfEach skipped elements ↔ ∃ element ∈ elements, location ∈ element.locations skipped := by
  induction elements with
  | nil => simp [locationsOfEach]
  | cons element rest ih => simp [locationsOfEach, ih]

theorem mem_locationsOfMembers {skipped : List Text} {members : List (Text × Json)} {location : Json} :
    location ∈ locationsOfMembers skipped members ↔
      ∃ member ∈ members, location ∈ locationsUnder skipped member.1 member.2 := by
  induction members with
  | nil => simp [locationsOfMembers]
  | cons member rest ih => simp [locationsOfMembers, locationsUnder, ih]

/-- The value is a range that does not end before it starts. -/
def InOrder (value : Json) : Prop :=
  ∃ start stop, value.member? "start" = some (.number start) ∧ value.member? "end" = some (.number stop)
    ∧ start.le stop = true

theorem eq_of_number? {value : Json} {number : Number} (read : value.number? = some number) :
    value = .number number := by
  cases value <;> cases read
  rfl

theorem inOrder_of_read {value : Json} {location : Location} (read : Location.ofJson? value = some location)
    (upright : location.isInverted = false) : InOrder value := by
  simp only [Location.ofJson?, Option.bind_eq_bind, Option.bind_eq_some_iff, Option.pure_def,
    Option.some.injEq] at read
  obtain ⟨first, foundFirst, start, readFirst, last, foundLast, stop, readLast, source, -, rfl⟩ := read
  rw [eq_of_number? readFirst] at foundFirst
  rw [eq_of_number? readLast] at foundLast
  exact ⟨start, stop, foundFirst, foundLast, by simpa [Location.isInverted] using upright⟩

end Json

namespace Schema

/-! ## Plain values -/

def isPlain : Schema → Bool
  | .string _ | .boolean | .offset | .literal _ | .oneOf _ => true
  | _ => false

theorem Fits.locations_plain {schema : Schema} {value : Json} (fits : Fits schema (some value))
    (plain : schema.isPlain = true) (skipped : List Text) : value.locations skipped = [] := by
  obtain ⟨_, keeps⟩ := fits
  cases keeps <;> first | contradiction | rfl

end Schema

namespace Validation

open Schema
open Source (Statement Block Function Contract SourceUnit locationOf?)

/-- The members whose locations are not checked: the operations of inline assembly, and the named
declarations of contracts and functions. -/
def uncheckedMembers : List Text := ["operations", "baseContracts", "structs", "enums", "events", "modifiers"]

/-- Every location in the document that is checked is in order. -/
def AllInOrder (document : Json) : Prop := ∀ location ∈ document.locations uncheckedMembers, location.InOrder

/-- Whether the member holds no location that is checked, whatever its value is. -/
def isBare (declared : Text × Schema) : Bool :=
  uncheckedMembers.contains declared.1 || (declared.2.isPlain && declared.1 != "location")

section

variable {document : Json}

theorem allInOrder_object {fields : List (Text × Schema)} (fits : Fits (.object fields) (some document))
    (distinct : (fields.map Prod.fst).Nodup) (looked : List Text)
    (bare : ∀ declared ∈ fields, isBare declared = true ∨ declared.1 ∈ looked)
    (others : ∀ name ∈ looked, ∀ value, document.member? name = some value →
      ∀ location ∈ Json.locationsUnder uncheckedMembers name value, location.InOrder) :
    AllInOrder document := by
  obtain ⟨_, keeps⟩ := fits
  cases keeps with
  | object each =>
    intro location found
    obtain ⟨⟨name, value⟩, listed, inside⟩ := Json.mem_locationsOfMembers.mp found
    obtain ⟨field, declared, fits⟩ := each.declared listed
    rcases bare _ declared with plain | special
    · rw [isBare, Bool.or_eq_true, Bool.and_eq_true, bne_iff_ne] at plain
      unfold Json.locationsUnder at inside
      rcases plain with unchecked | ⟨plain, other⟩
      · rw [if_pos unchecked] at inside
        contradiction
      · rw [if_neg other, fits.locations_plain plain] at inside
        split at inside <;> contradiction
    · exact others name special value (each.find?_of_mem distinct listed) location inside

theorem allInOrder_node {type : NodeType} {fields : List (Text × Schema)}
    (fits : Fits (.node type) (some document)) (shape : type.schema = .object fields) (looked : List Text)
    (bare : ∀ declared ∈ fields, isBare declared = true ∨ declared.1 ∈ looked)
    (others : ∀ name ∈ looked, ∀ value, document.member? name = some value →
      ∀ location ∈ Json.locationsUnder uncheckedMembers name value, location.InOrder) :
    AllInOrder document := by
  have inside := fits.node
  rw [shape] at inside
  exact allInOrder_object inside (distinct_schema shape) looked bare others

theorem allInOrder_array {elements : List Json} (each : ∀ element ∈ elements, AllInOrder element) :
    AllInOrder (.array elements) := by
  intro location found
  obtain ⟨element, listed, inside⟩ := Json.mem_locationsOfEach.mp found
  exact each element listed location inside

theorem inOrder_under {name : Text} {value : Json} (other : name ≠ "location") (inside : AllInOrder value) :
    ∀ location ∈ Json.locationsUnder uncheckedMembers name value, location.InOrder := by
  intro location found
  unfold Json.locationsUnder at found
  split at found
  · contradiction
  · exact inside location found

theorem inOrder_location {location : Location} (read : locationOf? document = some location)
    (upright : location.isInverted = false) :
    ∀ value, document.member? "location" = some value →
      ∀ location ∈ Json.locationsUnder uncheckedMembers "location" value, location.InOrder := by
  intro value member found inside
  obtain ⟨same, here, known⟩ := Option.bind_eq_some_iff.mp read
  rw [member] at here
  cases here
  have only : Json.locationsUnder uncheckedMembers "location" value = [value] := rfl
  rw [only, List.mem_singleton] at inside
  rw [inside]
  exact Json.inOrder_of_read known upright

theorem allInOrder_listAt {α : Type} {name : Text} {item : Schema} {nonEmpty : Bool} {read : Json → Option α}
    {values : List α} (fits : Fits (.array item nonEmpty) (document.member? name))
    (known : document.listAt? name read = some values)
    (each : ∀ element, Fits item (some element) → ∀ value ∈ values, read element = some value → AllInOrder element) :
    ∀ value, document.member? name = some value → AllInOrder value := by
  intro value member
  obtain ⟨elements, found, inside⟩ := fits.array
  rw [found] at member
  cases member
  simp only [Json.listAt?, found, Option.bind_eq_bind, Option.bind_some] at known
  refine allInOrder_array fun element listed => ?_
  obtain ⟨value, among, reads⟩ := mem_of_mapM known listed
  exact each element (inside element listed) value among reads

/-! ## Parts of a source unit -/

theorem allInOrder_parameters (fits : Fits NodeType.parameters (some document)) : AllInOrder document := by
  obtain ⟨elements, same, each⟩ := fits.array
  cases same
  refine allInOrder_array fun element listed => ?_
  exact allInOrder_node (each element listed) rfl [] (by decide) (List.forall_mem_nil _)

/-- No location in the statement is inverted, of those that are looked at. -/
def IsUpright (statement : Statement) : Prop := ∀ place ∈ statement.places, place.2.isInverted = false

mutual

theorem allInOrder_statement {document : Json} {statement : Statement}
    (fits : Fits (.node .astStatement) (some document)) (read : Statement.ofJson? document = some statement)
    (upright : IsUpright statement) : AllInOrder document := by
  obtain ⟨option, listed, inside⟩ := fits.node.union
  simp only [List.mem_cons, List.not_mem_nil, or_false] at listed
  have flat {type : NodeType} (listed : type = .astThrow ∨ type = .astInlineAssembly ∨ type = .astOtherStatement)
      (inside : Fits (.node type) (some document)) : ∀ value, document.member? "location" = some value →
      ∀ location ∈ Json.locationsUnder uncheckedMembers "location" value, location.InOrder := by
    obtain ⟨-, location, placed, same⟩ := read_flat listed inside read
    have own : ([], location) ∈ statement.places :=
      Source.Statement.mem_places.mpr (statement.locationAt?_nil.trans same)
    exact inOrder_location placed (upright _ own)
  rcases listed with rfl | rfl | rfl | rfl
  · have block := inside.deferred
    rw [ofJson?_blockStatement block] at read
    obtain ⟨body, known, rfl⟩ := Option.map_eq_some_iff.mp read
    obtain ⟨listed, placed⟩ := read_block known
    obtain ⟨-, statements, -⟩ := block.members rfl
    obtain ⟨elements, found, each⟩ := statements.array
    have smaller : sizeOf elements < sizeOf document := by
      have outer := Json.sizeOf_member? found
      rw [Json.array.sizeOf_spec] at outer
      omega
    simp only [Json.listAt?, found, Option.bind_eq_bind, Option.bind_some] at listed
    have behind : ∀ place ∈ Source.placesEach 0 body.statements, place.2.isInverted = false :=
      fun place member => upright place (List.mem_cons_of_mem _ member)
    have whole := allInOrder_array (allInOrder_statements each listed behind)
    refine allInOrder_node block rfl ["statements", "location"] (by decide) (List.forall_mem_cons.mpr ⟨?_, ?_⟩)
    · intro value member
      rw [found] at member
      cases member
      exact inOrder_under (by decide) whole
    · exact List.forall_mem_singleton.mpr (inOrder_location placed (upright _ List.mem_cons_self))
  · exact allInOrder_node inside rfl ["location"] (by decide) (List.forall_mem_singleton.mpr (flat (.inl rfl) inside))
  · exact allInOrder_node inside rfl ["location"] (by decide)
      (List.forall_mem_singleton.mpr (flat (.inr (.inl rfl)) inside))
  · exact allInOrder_node inside rfl ["location"] (by decide)
      (List.forall_mem_singleton.mpr (flat (.inr (.inr rfl)) inside))
termination_by sizeOf document

theorem allInOrder_statements {documents : List Json} {statements : List Statement} {index : Nat}
    (each : ∀ document ∈ documents, Fits (.node .astStatement) (some document))
    (known : documents.mapM Statement.ofJson? = some statements)
    (upright : ∀ place ∈ Source.placesEach index statements, place.2.isInverted = false) :
    ∀ document ∈ documents, AllInOrder document := by
  cases documents with
  | nil => exact List.forall_mem_nil _
  | cons document rest =>
    obtain ⟨statement, others, here, behind, rfl⟩ := mapM_cons_eq_some.mp known
    rw [List.forall_mem_cons] at each ⊢
    rw [Source.placesEach, List.forall_mem_append] at upright
    have own : IsUpright statement := 
      fun place member => upright.1 (Source.behind index place) (List.mem_map_of_mem member)
    exact ⟨allInOrder_statement each.1 here own, allInOrder_statements each.2 behind upright.2⟩
termination_by sizeOf documents

end

theorem fits_asStatement (fits : Fits (.node .astBlock) (some document)) :
    Fits (.node .astStatement) (some document) := by
  obtain ⟨given, keeps⟩ := fits
  cases keeps with
  | node keeps =>
    have option : Keeps NodeType.astStatement.schema given (some document) :=
      .union List.mem_cons_self (.deferred keeps)
    exact ⟨given, .node option⟩

def IsUprightFunction (function : Function) : Prop :=
  function.location.isInverted = false ∧ ∀ body ∈ function.body, IsUpright body.asStatement

theorem allInOrder_function {function : Function} (fits : Fits (.node .astFunction) (some document))
    (read : Function.ofJson? document = some function) (upright : IsUprightFunction function) :
    AllInOrder document := by
  obtain ⟨inside, placed⟩ := read_function read
  obtain ⟨-, -, -, -, -, -, -, parameters, results, body, -⟩ := fits.members rfl
  refine allInOrder_node fits rfl ["parameters", "returnParameters", "body", "location"] (by decide)
    (List.forall_mem_cons.mpr ⟨?parameters, List.forall_mem_cons.mpr ⟨?results, List.forall_mem_cons.mpr
      ⟨?body, List.forall_mem_singleton.mpr (inOrder_location placed upright.1)⟩⟩⟩)
  case parameters =>
    intro value member
    rw [member] at parameters
    exact inOrder_under (by decide) (allInOrder_parameters parameters)
  case results =>
    intro value member
    rw [member] at results
    exact inOrder_under (by decide) (allInOrder_parameters results)
  case body =>
    intro value member
    rw [Json.optionalAt?, member] at inside
    obtain ⟨block, known, same⟩ := Option.map_eq_some_iff.mp inside
    rw [member] at body
    rcases body.optional with absent | fits
    · contradiction
    · have statement := ofJson?_blockStatement fits
      rw [known] at statement
      have whole := allInOrder_statement (fits_asStatement fits) statement (upright.2 block same.symm)
      exact inOrder_under (by decide) whole

theorem allInOrder_contract {contract : Contract} (fits : Fits (.node .astContract) (some document))
    (read : Contract.ofJson? document = some contract) (upright : contract.location.isInverted = false)
    (each : ∀ function ∈ contract.functions, IsUprightFunction function) : AllInOrder document := by
  obtain ⟨listed, placed⟩ := read_contract read
  obtain ⟨-, -, -, -, -, -, -, -, -, functions, -⟩ := fits.members rfl
  have inside := allInOrder_listAt functions listed fun _ fits function among read =>
    allInOrder_function fits read (each function among)
  refine allInOrder_node fits rfl ["functions", "location"] (by decide) (List.forall_mem_cons.mpr ⟨?_, ?_⟩)
  · intro value member
    exact inOrder_under (by decide) (inside value member)
  · exact List.forall_mem_singleton.mpr (inOrder_location placed upright)

end

/-! ## Accepted source units -/

/-- In an accepted source unit no place has an inverted location. -/
theorem upright_of_clean {source : SourceUnit} {place : Source.Place} {location : Location}
    (clean : sourceUnitFindings source = []) (known : source.locationAt? place = some location) :
    location.isInverted = false := by
  rw [sourceUnitFindings_eq, List.map_eq_nil_iff] at clean
  by_contra inverted
  have listed := mem_inverted known (Bool.not_eq_false _ ▸ inverted)
  rw [clean] at listed
  contradiction

theorem uprightFunction_of_clean {source : SourceUnit} (clean : sourceUnitFindings source = []) {index position : Nat}
    {function : Function} (known : source.functionAt? index position = some function) :
    IsUprightFunction function := by
  constructor
  · have placed : source.locationAt? (.function index position) = some function.location :=
      Option.map_eq_some_iff.mpr ⟨function, known, rfl⟩
    exact upright_of_clean clean placed
  · intro body some place listed
    have found := Source.Statement.mem_places.mp listed
    have placed : source.locationAt? (.body index position place.1) = Option.some place.2 := by
      rw [SourceUnit.locationAt?, SourceUnit.statementAt?, known, Option.bind_some, some, Option.bind_some]
      exact found
    exact upright_of_clean clean placed

/-- No checked location in an accepted source unit ends before it starts: every location is in order
but those inside inline assembly and those of named declarations. -/
theorem sourceUnit_inOrder {document : Json} {source : ValidSourceUnit}
    (accepted : sourceUnit document = .valid (some source)) :
    ∀ location ∈ source.document.locations uncheckedMembers, location.InOrder := by
  obtain ⟨fits, read⟩ := fits_of_sourceUnit accepted
  obtain ⟨same, ⟨⟩, -, -, clean⟩ := sourceUnit_valid accepted
  simp only [SourceUnit.ofJson?, Option.bind_eq_bind, Option.bind_eq_some_iff, Option.pure_def,
    Option.some.injEq] at read
  obtain ⟨path, -, contracts, listed, tree⟩ := read
  obtain ⟨-, -, member, -⟩ := fits.object (by decide)
  have inside := allInOrder_listAt member listed fun element fits contract among read => by
    obtain ⟨index, found⟩ := List.getElem?_of_mem among
    have here : source.tree.contracts[index]? = some contract := by rw [← tree]; exact found
    refine allInOrder_contract fits read ?_ fun function among => ?_
    · have placed : source.tree.locationAt? (.contract index) = some contract.location :=
        Option.map_eq_some_iff.mpr ⟨contract, here, rfl⟩
      exact upright_of_clean clean placed
    · obtain ⟨position, there⟩ := List.getElem?_of_mem among
      exact uprightFunction_of_clean clean (functionAt?_eq_some.mpr ⟨contract, here, there⟩)
  refine allInOrder_object fits (by decide) ["contracts"] (by decide) (List.forall_mem_singleton.mpr ?_)
  intro value found
  exact inOrder_under (by decide) (inside value found)

def assemblyDocument : Json :=
  let operations := nodeDocument "block" [("statements", .array [])] 9 2
  let assembly := nodeDocument "inlineAssembly" [("operations", operations)] 0 9
  let body := nodeDocument "block" [("statements", .array [assembly])] 0 9
  unitDocument [contractDocument [functionDocument "f" "function" body 0 9] 0 9]

def rangeDocument (start stop : Nat) : Json := .object [("start", .nat start), ("end", .nat stop)]

theorem sourceUnit_assembly :
    ∃ source, sourceUnit assemblyDocument = .valid (some source) ∧ source.document = assemblyDocument := by
  have kept : (sourceUnit assemblyDocument).value?.map (·.document) = some assemblyDocument := by cbv
  exact eq_valid_of_value? kept

/-- The locations of the contract, the function, its body and the statement are checked. -/
theorem sourceUnit_inOrder_assembly :
    ∃ source, sourceUnit assemblyDocument = .valid (some source)
      ∧ source.document.locations uncheckedMembers = List.replicate 4 (rangeDocument 0 9)
      ∧ ∀ location ∈ source.document.locations uncheckedMembers, location.InOrder := by
  obtain ⟨source, accepted, same⟩ := sourceUnit_assembly
  refine ⟨source, accepted, ?_, sourceUnit_inOrder accepted⟩
  rw [same]
  rfl

/-- The location inside the assembly is not. -/
theorem sourceUnit_inverted_assembly :
    ∃ source, sourceUnit assemblyDocument = .valid (some source)
      ∧ ∃ location ∈ source.document.locations [], ¬ location.InOrder := by
  obtain ⟨source, accepted, same⟩ := sourceUnit_assembly
  refine ⟨source, accepted, rangeDocument 9 2, ?_, ?_⟩
  · have all : assemblyDocument.locations [] = rangeDocument 9 2 :: List.replicate 4 (rangeDocument 0 9) := rfl
    rw [same, all]
    exact List.mem_cons_self
  · rintro ⟨start, stop, first, last, ordered⟩
    cases first
    cases last
    revert ordered
    decide

end Validation

end ContractAsm

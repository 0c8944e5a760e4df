import ContractAsm.Proofs.Schema.Nodes
import ContractAsm.Proofs.Validation.Violations
import Mathlib

/-!
# Reports of source units

Every violation of a source unit is reported once and in order, at a path that leads from the root
of the given document to the offending node: the tree was read from what was kept of the document,
and every node of the tree stands at the same place in both.
-/

namespace ContractAsm.Validation

open Schema
open Source (Statement Block Function Contract SourceUnit Place locationOf?)

section

variable {document kept : Json}

/-! ## Locations -/

theorem member_location {type : NodeType} {fields : List (Text × Schema)} {location : Location}
    (keeps : Keeps type.schema (some document) (some kept)) (shape : type.schema = .object fields)
    (declared : (("location", .node .sourceLocation) : Text × Schema) ∈ fields)
    (read : locationOf? kept = some location) :
    ∃ there, document.member? "location" = some there
      ∧ StandsFor .sourceLocation Location.ofJson? there location := by
  have member := keeps.memberOf shape declared
  obtain ⟨inner, found, known⟩ := Option.bind_eq_some_iff.mp read
  rw [found] at member
  exact member.walk_member known

/-! ## Contracts and functions -/

theorem read_contract {contract : Contract} (read : Contract.ofJson? kept = some contract) :
    kept.listAt? "functions" Function.ofJson? = some contract.functions
      ∧ locationOf? kept = some contract.location := by
  simp only [Contract.ofJson?, Option.bind_eq_bind, Option.bind_eq_some_iff, Option.pure_def,
    Option.some.injEq] at read
  obtain ⟨_, -, _, -, _, -, _, -, _, -, _, -, _, -, _, -, _, -, functions, listed, location, placed, rfl⟩ := read
  exact ⟨listed, placed⟩

theorem read_function {function : Function} (read : Function.ofJson? kept = some function) :
    kept.optionalAt? "body" Block.ofJson? = some function.body
      ∧ locationOf? kept = some function.location := by
  simp only [Function.ofJson?, Option.bind_eq_bind, Option.bind_eq_some_iff, Option.pure_def,
    Option.some.injEq] at read
  obtain ⟨_, -, _, -, _, -, _, -, _, -, _, -, _, -, _, -, _, -, _, -, _, -, _, -, body, inside, location, placed,
    rfl⟩ := read
  exact ⟨inside, placed⟩

theorem contract_location {contract : Contract} (stands : StandsFor .astContract Contract.ofJson? document contract) :
    ∃ there, document.member? "location" = some there
      ∧ StandsFor .sourceLocation Location.ofJson? there contract.location := by
  obtain ⟨kept, keeps, read⟩ := stands.keeps
  exact member_location keeps rfl (by simp) (read_contract read).2

theorem walk_function {contract : Contract} {function : Function} {index : Nat}
    (stands : StandsFor .astContract Contract.ofJson? document contract)
    (found : contract.functions[index]? = some function) :
    ∃ there, document.walk? (element "functions" index) = some there
      ∧ StandsFor .astFunction Function.ofJson? there function := by
  obtain ⟨kept, keeps, read⟩ := stands.keeps
  have member := keeps.memberOf rfl (show (("functions", .listOf (.node .astFunction)) : Text × Schema) ∈ _ by simp)
  exact member.walk_element (read_contract read).1 found

theorem function_location {function : Function} (stands : StandsFor .astFunction Function.ofJson? document function) :
    ∃ there, document.member? "location" = some there
      ∧ StandsFor .sourceLocation Location.ofJson? there function.location := by
  obtain ⟨kept, keeps, read⟩ := stands.keeps
  exact member_location keeps rfl (by simp) (read_function read).2

theorem member_body {function : Function} {body : Block}
    (stands : StandsFor .astFunction Function.ofJson? document function) (there : function.body = some body) :
    ∃ inner, document.member? "body" = some inner ∧ StandsFor .astBlock Block.ofJson? inner body := by
  obtain ⟨kept, keeps, read⟩ := stands.keeps
  have member := keeps.memberOf rfl (show (("body", .optional (.node .astBlock)) : Text × Schema) ∈ _ by simp)
  have inside := (read_function read).1
  rw [there, Json.optionalAt?] at inside
  cases found : kept.member? "body" with
  | none =>
    rw [found] at inside
    cases inside
  | some inner =>
    rw [found] at inside member
    obtain ⟨_, known, ⟨⟩⟩ := Option.map_eq_some_iff.mp inside
    exact member.ofOptional.walk_member known

/-! ## Statements -/

theorem statementsOfJson?_eq (documents : List Json) :
    Source.statementsOfJson? documents = documents.mapM Statement.ofJson? := by
  induction documents with
  | nil =>
    rw [Source.statementsOfJson?]
    rfl
  | cons document rest ih => rw [Source.statementsOfJson?, List.mapM_cons, ih]

theorem read_block {block : Block} (read : Block.ofJson? kept = some block) :
    kept.listAt? "statements" Statement.ofJson? = some block.statements
      ∧ locationOf? kept = some block.location := by
  simp only [Block.ofJson?, statementsOfJson?_eq, Option.bind_eq_bind, Option.bind_eq_some_iff,
    Option.pure_def, Option.some.injEq] at read
  obtain ⟨member, found, elements, listed, statements, each, location, placed, rfl⟩ := read
  refine ⟨?_, placed⟩
  simp only [Json.listAt?, found, Option.bind_eq_bind, Option.bind_some, listed, each]

theorem ofJson?_blockStatement (fits : Fits (.node .astBlock) (some kept)) :
    Statement.ofJson? kept = (Block.ofJson? kept).map Block.asStatement := by
  obtain ⟨kind, statements, -⟩ := fits.members rfl
  obtain ⟨elements, found, -⟩ := statements.array
  rw [Statement.ofJson?, kind.kind, Json.items?, child?_eq found, Block.ofJson?, found]
  show (Source.statementsOfJson? elements).bind (fun statements => (locationOf? kept).bind fun location =>
      some (Statement.block statements location))
    = ((Source.statementsOfJson? elements).bind fun statements => (locationOf? kept).bind fun location =>
      some ⟨statements, location⟩).map Block.asStatement
  cases Source.statementsOfJson? elements with
  | none => rfl
  | some statements => cases locationOf? kept <;> rfl

theorem standsFor_asStatement {block : Block} :
    StandsFor .astBlock Block.ofJson? document block →
      StandsFor .astStatement Statement.ofJson? document block.asStatement := by
  intro stands
  obtain ⟨kept, keeps, read⟩ := stands.keeps
  have inner : Keeps (.node .astBlock) (some document) (some kept) := .node keeps
  have same := ofJson?_blockStatement ⟨_, inner⟩
  rw [read] at same
  have option : Keeps NodeType.astStatement.schema (some document) (some kept) :=
    .union (List.mem_cons_self) (.deferred keeps)
  exact Keeps.standsFor (.node option) same

def IsFlat (statement : Statement) : Prop := ∀ index way, statement.at? (index :: way) = none

theorem read_flat {type : NodeType} {statement : Statement} (listed : type = .astThrow ∨ type = .astInlineAssembly
      ∨ type = .astOtherStatement) (fits : Fits (.node type) (some kept))
    (read : Statement.ofJson? kept = some statement) :
    IsFlat statement ∧ ∃ location, locationOf? kept = some location ∧ statement.location? = some location := by
  rcases listed with rfl | rfl | rfl
  · obtain ⟨kind, -⟩ := fits.members rfl
    rw [Statement.ofJson?, kind.kind] at read
    obtain ⟨location, placed, rfl⟩ := Option.map_eq_some_iff.mp read
    exact ⟨fun _ _ => rfl, location, placed, rfl⟩
  · obtain ⟨kind, -⟩ := fits.members rfl
    rw [Statement.ofJson?, kind.kind] at read
    simp only [Option.bind_eq_bind, Option.bind_eq_some_iff, Option.pure_def, Option.some.injEq] at read
    obtain ⟨_, -, operations, -, location, placed, rfl⟩ := read
    exact ⟨fun _ _ => rfl, location, placed, rfl⟩
  · obtain ⟨kind, known⟩ := Source.ofJson?_other fits
    rw [known] at read
    obtain ⟨location, placed, rfl⟩ := Option.map_eq_some_iff.mp read
    exact ⟨fun _ _ => rfl, location, placed, rfl⟩

/-- The node of a statement is the node of a block, or one with a location and no statements inside. -/
theorem standsFor_statement {statement : Statement}
    (stands : StandsFor .astStatement Statement.ofJson? document statement) :
    (∃ block, statement = block.asStatement ∧ StandsFor .astBlock Block.ofJson? document block)
      ∨ IsFlat statement
        ∧ ∃ location, statement.location? = some location ∧ ∃ there, document.member? "location" = some there
          ∧ StandsFor .sourceLocation Location.ofJson? there location := by
  obtain ⟨kept, keeps, read⟩ := stands.keeps
  have shape : NodeType.astStatement.schema = .union [.deferred .astBlock, .node .astThrow,
    .node .astInlineAssembly, .node .astOtherStatement] := rfl
  rw [shape] at keeps
  have flat {type : NodeType} {fields : List (Text × Schema)} (listed : type = .astThrow
      ∨ type = .astInlineAssembly ∨ type = .astOtherStatement) (shape : type.schema = .object fields)
      (declared : (("location", .node .sourceLocation) : Text × Schema) ∈ fields)
      (keeps : Keeps (.node type) (some document) (some kept)) :
      IsFlat statement
        ∧ ∃ location, statement.location? = some location ∧ ∃ there, document.member? "location" = some there
          ∧ StandsFor .sourceLocation Location.ofJson? there location := by
    obtain ⟨flat, location, placed, same⟩ := read_flat listed ⟨_, keeps⟩ read
    cases keeps with
    | node keeps => exact ⟨flat, location, same, member_location keeps shape declared placed⟩
  cases keeps with
  | union listed keeps =>
    simp only [List.mem_cons, List.not_mem_nil, or_false] at listed
    rcases listed with rfl | rfl | rfl | rfl
    · cases keeps with
      | deferred keeps =>
        have inner : Keeps (.node .astBlock) (some document) (some kept) := .node keeps
        rw [ofJson?_blockStatement ⟨_, inner⟩] at read
        obtain ⟨block, known, rfl⟩ := Option.map_eq_some_iff.mp read
        exact .inl ⟨block, rfl, inner.standsFor known⟩
    · exact .inr (flat (.inl rfl) rfl (by simp) keeps)
    · exact .inr (flat (.inr (.inl rfl)) rfl (by simp) keeps)
    · exact .inr (flat (.inr (.inr rfl)) rfl (by simp) keeps)

theorem statement_location {statement : Statement} {location : Location}
    (stands : StandsFor .astStatement Statement.ofJson? document statement)
    (placed : statement.location? = some location) :
    ∃ there, document.member? "location" = some there
      ∧ StandsFor .sourceLocation Location.ofJson? there location := by
  rcases standsFor_statement stands with ⟨block, rfl, inner⟩ | ⟨-, other, same, there⟩
  · obtain ⟨kept, keeps, read⟩ := inner.keeps
    cases placed
    exact member_location keeps rfl (by simp) (read_block read).2
  · rw [same] at placed
    cases placed
    exact there

theorem walk_statement {statement inner : Statement} {way : List Nat}
    (stands : StandsFor .astStatement Statement.ofJson? document statement) (found : statement.at? way = some inner) :
    ∃ there, document.walk? (way.flatMap (element "statements")) = some there
      ∧ StandsFor .astStatement Statement.ofJson? there inner := by
  induction way generalizing document statement with
  | nil =>
    cases statement <;> cases found <;> exact ⟨document, rfl, stands⟩
  | cons index way ih =>
    rcases standsFor_statement stands with ⟨block, rfl, blockStands⟩ | ⟨flat, -⟩
    · obtain ⟨next, listed, found⟩ := Option.bind_eq_some_iff.mp found
      obtain ⟨kept, keeps, read⟩ := blockStands.keeps
      have member := keeps.memberOf rfl
        (show (("statements", .listOf (.node .astStatement)) : Text × Schema) ∈ _ by simp)
      obtain ⟨there, reached, standsThere⟩ := member.walk_element (read_block read).1 listed
      obtain ⟨last, further, standsLast⟩ := ih standsThere found
      refine ⟨last, ?_, standsLast⟩
      rw [List.flatMap_cons, Json.walk?_append, element, reached, Option.bind_some, further]
    · rw [flat] at found
      contradiction

/-! ## Places -/

/-- The node is what was read as the contract, function or statement at a place. -/
def Shows (source : SourceUnit) (node : Json) : Place → Prop
  | .contract index =>
      ∃ contract, source.contracts[index]? = some contract ∧ StandsFor .astContract Contract.ofJson? node contract
  | .function contract index =>
      ∃ function, source.functionAt? contract index = some function
        ∧ StandsFor .astFunction Function.ofJson? node function
  | .body contract function way =>
      ∃ statement, source.statementAt? contract function way = some statement
        ∧ StandsFor .astStatement Statement.ofJson? node statement

theorem walk_contract {tree : SourceUnit} {contract : Contract} {index : Nat}
    (keeps : Keeps DocumentType.sourceUnit.schema (some document) (some kept))
    (read : SourceUnit.ofJson? kept = some tree) (found : tree.contracts[index]? = some contract) :
    ∃ there, document.walk? (element "contracts" index) = some there
      ∧ StandsFor .astContract Contract.ofJson? there contract := by
  have shape : DocumentType.sourceUnit.schema = .object [("kind", .literal "sourceUnit"), ("path", .text),
    ("contracts", .listOf (.node .astContract))] := rfl
  rw [shape] at keeps
  have member := keeps.member (by decide)
    (show (("contracts", .listOf (.node .astContract)) : Text × Schema) ∈ _ by simp)
  simp only [SourceUnit.ofJson?, Option.bind_eq_bind, Option.bind_eq_some_iff, Option.pure_def,
    Option.some.injEq] at read
  obtain ⟨_, -, contracts, listed, rfl⟩ := read
  exact member.walk_element listed found

/-- The path to a place leads to the node that stands there, and its location to that of the node. -/
theorem walk_place {tree : SourceUnit} {place : Place} {location : Location}
    (keeps : Keeps DocumentType.sourceUnit.schema (some document) (some kept))
    (read : SourceUnit.ofJson? kept = some tree) (placed : tree.locationAt? place = some location) :
    ∃ there, document.walk? (pathTo place) = some there ∧ Shows tree there place
      ∧ ∃ inner, there.member? "location" = some inner
        ∧ StandsFor .sourceLocation Location.ofJson? inner location := by
  cases place with
  | contract index =>
    obtain ⟨contract, found, rfl⟩ := Option.map_eq_some_iff.mp placed
    obtain ⟨there, reached, stands⟩ := walk_contract keeps read found
    exact ⟨there, reached, ⟨contract, found, stands⟩, contract_location stands⟩
  | function index position =>
    obtain ⟨function, known, rfl⟩ := Option.map_eq_some_iff.mp placed
    obtain ⟨contract, found, listed⟩ := functionAt?_eq_some.mp known
    obtain ⟨outer, reached, standsOuter⟩ := walk_contract keeps read found
    obtain ⟨there, further, stands⟩ := walk_function standsOuter listed
    refine ⟨there, ?_, ⟨function, known, stands⟩, function_location stands⟩
    rw [pathTo, Json.walk?_append, reached, Option.bind_some, further]
  | body index position way =>
    obtain ⟨statement, reachedStatement, same⟩ := Option.bind_eq_some_iff.mp placed
    obtain ⟨body, inside, found⟩ := Option.bind_eq_some_iff.mp reachedStatement
    obtain ⟨function, known, some⟩ := Option.bind_eq_some_iff.mp inside
    obtain ⟨contract, listed, there⟩ := functionAt?_eq_some.mp known
    obtain ⟨outer, reached, standsOuter⟩ := walk_contract keeps read listed
    obtain ⟨middle, further, standsMiddle⟩ := walk_function standsOuter there
    obtain ⟨inner, member, standsInner⟩ := member_body standsMiddle some
    obtain ⟨last, behind, stands⟩ := walk_statement (standsFor_asStatement standsInner) found
    refine ⟨last, ?_, ⟨statement, reachedStatement, stands⟩, statement_location stands same⟩
    rw [pathTo, List.concat_eq_append, Json.walk?_append, Json.walk?_append, Json.walk?_append, reached,
      Option.bind_some, further, Option.bind_some, Json.walk?_member member, Option.bind_some, behind]

end

/-! ## Paths as texts -/

theorem isSegment_pathTo (place : Place) : ∀ segment ∈ pathTo place, IsSegment segment := by
  have named {name : Text} {index : Nat} (plain : IsSegment name) : ∀ segment ∈ element name index, IsSegment segment :=
    List.forall_mem_cons.mpr ⟨plain, List.forall_mem_singleton.mpr (isSegment_index index)⟩
  have contracts : IsSegment "contracts" := by unfold IsSegment; decide
  have functions : IsSegment "functions" := by unfold IsSegment; decide
  have body : IsSegment "body" := by unfold IsSegment; decide
  have statements : IsSegment "statements" := by unfold IsSegment; decide
  cases place with
  | contract index => exact named contracts
  | function index position => exact List.forall_mem_append.mpr ⟨named contracts, named functions⟩
  | body index position way =>
    rw [pathTo, List.concat_eq_append, List.forall_mem_append, List.forall_mem_append, List.forall_mem_append,
      List.forall_mem_singleton]
    refine ⟨⟨⟨named contracts, named functions⟩, body⟩, fun segment member => ?_⟩
    obtain ⟨index, -, inside⟩ := List.mem_flatMap.mp member
    exact named statements segment inside

theorem pathTo_eq_cons (place : Place) : ∃ rest, pathTo place = ("contracts" : Text) :: rest := by
  cases place <;> exact ⟨_, rfl⟩

/-- The text of the path to a place, or to something in it, is followed segment by segment. -/
theorem resolve?_pathTo (document : Json) (place : Place) {more : List Text}
    (separate : ∀ segment ∈ more, IsSegment segment) :
    document.resolve? (Finding.pathText (pathTo place ++ more)) = document.walk? (pathTo place ++ more) := by
  have every := List.forall_mem_append.mpr ⟨isSegment_pathTo place, separate⟩
  obtain ⟨rest, first⟩ := pathTo_eq_cons place
  rw [first, List.cons_append] at every ⊢
  rw [Json.resolve?, segments_pathText (by decide) every]

/-! ## Reports -/

/-- The path that is reported leads, from the root of the document, to the node that was read as what
stands at the place of the violation, or for an inverted location to that of the node. -/
def Violation.PointsInto (document : Json) (source : SourceUnit) (violation : Violation) : Prop :=
  ∃ node, document.resolve? (Finding.pathText (pathTo violation.place)) = some node
    ∧ Shows source node violation.place
    ∧ match violation with
      | .inverted _ location =>
          ∃ inner, node.member? "location" = some inner ∧ StandsFor .sourceLocation Location.ofJson? inner location
            ∧ document.resolve? violation.finding.path = some inner
      | _ => document.resolve? violation.finding.path = some node

theorem Violation.Occurs.placed {source : SourceUnit} {violation : Violation} (occurs : violation.Occurs source) :
    ∃ location, source.locationAt? violation.place = some location := by
  cases violation with
  | repeatedName =>
    obtain ⟨contract, found, -⟩ := occurs
    exact ⟨contract.location, Option.map_eq_some_iff.mpr ⟨contract, found, rfl⟩⟩
  | inverted place location => exact ⟨location, occurs.1⟩
  | namedFallback | unnamedFunction =>
    obtain ⟨function, known, -⟩ := occurs
    exact ⟨function.location, Option.map_eq_some_iff.mpr ⟨function, known, rfl⟩⟩
  | repeatedFallback =>
    obtain ⟨contract, function, found, there, -⟩ := occurs
    have known := functionAt?_eq_some.mpr ⟨contract, found, there⟩
    exact ⟨function.location, Option.map_eq_some_iff.mpr ⟨function, known, rfl⟩⟩

theorem pointsInto_of_occurs {document kept : Json} {tree : SourceUnit} {violation : Violation}
    (keeps : Keeps DocumentType.sourceUnit.schema (some document) (some kept))
    (read : SourceUnit.ofJson? kept = some tree) (occurs : violation.Occurs tree) :
    violation.PointsInto document tree := by
  obtain ⟨location, placed⟩ := occurs.placed
  obtain ⟨node, reached, shows_, inner, member, stands⟩ := walk_place keeps read placed
  have resolved := resolve?_pathTo document violation.place (List.forall_mem_nil _)
  rw [List.append_nil, reached] at resolved
  refine ⟨node, resolved, shows_, ?_⟩
  cases violation with
  | inverted place other =>
    have same : location = other := Option.some.inj (placed.symm.trans occurs.1)
    have there : document.walk? (pathTo place) = some node := reached
    refine ⟨inner, member, same ▸ stands, ?_⟩
    have segment : ∀ segment ∈ [("location" : Text)], IsSegment segment :=
      List.forall_mem_singleton.mpr (by unfold IsSegment; decide)
    have further := resolve?_pathTo document place segment
    rw [Violation.path_finding, Violation.path, List.concat_eq_append, further, Json.walk?_append, there,
      Option.bind_some, Json.walk?_member member]
  | _ => exact resolved

/-- What the validator makes of a document, in terms of the tree that it reads and of the violations in
this tree. -/
structure Report (document : Json) (source : ValidSourceUnit) (reported : List Violation) : Prop where
  kept : DocumentType.sourceUnit.schema.check (some document) = .accept (some source.document)
  read : SourceUnit.ofJson? source.document = some source.tree
  /-- The reported violations are those that occur. -/
  complete : ∀ violation, violation ∈ reported ↔ violation.Occurs source.tree
  /-- Each comes before those behind it, so none is reported twice. -/
  ordered : reported.Pairwise Violation.Before
  points : ∀ violation ∈ reported, violation.PointsInto document source.tree
  /-- The findings are those of the reported violations, one for each. -/
  result : sourceUnit document =
    if reported.isEmpty then .valid (some source) else .invalid (reported.map Violation.finding)
  valid : (sourceUnit document).isValid = true ↔ ∀ violation, ¬ Violation.Occurs source.tree violation

/-- Every violation of a source unit that passes the schema is reported exactly once, in order and at
its place, and the unit is valid if there is none. -/
theorem sourceUnit_reports {document : Json}
    (passes : (DocumentType.sourceUnit.schema.check (some document)).issues = []) :
    ∃ source reported, Report document source reported := by
  obtain ⟨declared, checked, keeps⟩ := checkAgainst_accepted passes
  obtain ⟨tree, read, -⟩ := Source.decodes_sourceUnit ⟨_, keeps⟩
  have accepted : DocumentType.sourceUnit.schema.check (some document) = .accept (some declared) :=
    keeps.check_eq (orderly_document _) (runs_of_accepted passes)
  have decided : sourceUnit document
      = if (violations tree).isEmpty then .valid (some ⟨declared, tree⟩)
        else .invalid ((violations tree).map Violation.finding) := by
    simp only [sourceUnit, checked, read, sourceUnitFindings_eq]
    cases violations tree <;> rfl
  have valid : (sourceUnit document).isValid = true ↔ ∀ violation, ¬ Violation.Occurs tree violation := by
    rw [decided]
    cases listed : violations tree with
    | nil =>
      refine iff_of_true rfl fun violation occurs => ?_
      have member := mem_of_occurs occurs
      rw [listed] at member
      contradiction
    | cons violation rest =>
      have member : violation ∈ violations tree := listed ▸ List.mem_cons_self
      exact iff_of_false Bool.false_ne_true fun none => none violation (occurs_of_mem member)
  exact ⟨⟨declared, tree⟩, violations tree, accepted, read, fun _ => ⟨occurs_of_mem, mem_of_occurs⟩,
    pairwise_violations tree, fun _ listed => pointsInto_of_occurs keeps read (occurs_of_mem listed), decided,
    valid⟩

/-! ## A unit with violations -/

def nodeDocument (kind : Text) (members : List (Text × Json)) (start stop : Nat) : Json :=
  let location : Json := .object [("start", .nat start), ("end", .nat stop)]
  .object (("kind", .string kind) :: members.concat ("location", location))

def functionDocument (name kind : Text) (body : Json) (start stop : Nat) : Json :=
  nodeDocument "function" [("name", .string name), ("functionKind", .string kind), ("visibility", .string "public"),
    ("stateMutability", .string "payable"), ("implemented", .bool true), ("modifiers", .array []),
    ("parameters", .array []), ("returnParameters", .array []), ("body", body)] start stop

def contractDocument (functions : List Json) (start stop : Nat) : Json :=
  nodeDocument "contract" [("name", .string "C"), ("fullyQualifiedName", .string "a:C"),
    ("contractKind", .string "contract"), ("baseContracts", .array []), ("structs", .array []),
    ("enums", .array []), ("events", .array []), ("modifiers", .array []), ("functions", .array functions)]
    start stop

def unitDocument (contracts : List Json) : Json :=
  .object [("kind", .string "sourceUnit"), ("path", .string "a"), ("contracts", .array contracts)]

/-- Two contracts of one name; the second one has two fallbacks, a function without a name and a
throw in a nested block whose location is inverted, as that of the contract is. -/
def brokenDocument : Json :=
  let empty := nodeDocument "block" [("statements", .array [])] 0 9
  let nested := nodeDocument "block" [("statements", .array [nodeDocument "throw" [] 7 3])] 0 9
  let body := nodeDocument "block" [("statements", .array [empty, nested])] 0 9
  unitDocument [contractDocument [] 0 9, contractDocument [functionDocument "" "fallback" empty 0 9,
    functionDocument "x" "fallback" empty 0 9, functionDocument "" "function" body 5 4] 6 2]

def brokenPaths : List Text :=
  ["contracts.1", "contracts.1.location", "contracts.1.functions.1", "contracts.1.functions.1",
    "contracts.1.functions.2.location", "contracts.1.functions.2",
    "contracts.1.functions.2.body.statements.1.statements.0.location"]

theorem sourceUnit_reports_broken :
    ∃ source reported, Report brokenDocument source reported ∧ reported.map (·.finding.path) = brokenPaths := by
  have passes : (DocumentType.sourceUnit.schema.check (some brokenDocument)).issues = [] := by cbv
  have paths : (sourceUnit brokenDocument).findings.map (·.path) = brokenPaths := by cbv
  obtain ⟨source, reported, report⟩ := sourceUnit_reports passes
  refine ⟨source, reported, report, ?_⟩
  rw [← paths, report.result]
  cases reported with
  | nil => rfl
  | cons => exact (List.map_map).symm

end ContractAsm.Validation

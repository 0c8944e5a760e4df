import ContractAsm.Proofs.Asm.Recognition
import ContractAsm.Source.Document

/-!
# Recognised source units

A document that fits the schema of a source unit is read completely: the reader finds every
member that it asks for, and no statement in the tree is of an unknown kind.
-/

namespace ContractAsm.Source

open Schema

/-! ## Trees without unknown nodes -/

mutual

def Statement.Recognised : Statement → Prop
  | .block statements _ => StatementsRecognised statements
  | .throw _ => True
  | .inlineAssembly operations _ => operations.Recognised
  | .other _ _ => True
  | .unrecognised _ => False

def StatementsRecognised : List Statement → Prop
  | [] => True
  | statement :: rest => statement.Recognised ∧ StatementsRecognised rest

end

def Block.Recognised (block : Block) : Prop := StatementsRecognised block.statements

def Function.Recognised (function : Function) : Prop := ∀ body ∈ function.body, body.Recognised

def Contract.Recognised (contract : Contract) : Prop :=
  ∀ function ∈ contract.functions, function.Recognised

def SourceUnit.Recognised (source : SourceUnit) : Prop :=
  ∀ contract ∈ source.contracts, contract.Recognised

/-! ## Statements that fit -/

theorem decodes_location {document : Json}
    (fits : Fits (.node .sourceLocation) (document.member? "location")) :
    Decodes (locationOf? document) fun _ => True :=
  (decodes_member fits (fits.present rfl)).bind fun _ inside => Schema.decodes_location inside

/-- A statement that is not lowered is known by its kind. -/
theorem ofJson?_other {document : Json} (fits : Fits (.node .astOtherStatement) (some document)) :
    ∃ kind, Statement.ofJson? document = (locationOf? document).map (.other kind) := by
  obtain ⟨kind, -⟩ := fits.members rfl
  obtain ⟨text, declared, found⟩ := kind.oneOf
  obtain ⟨other, -, rfl⟩ := List.mem_map.mp declared
  refine ⟨other, ?_⟩
  cases other
  all_goals
    rw [Statement.ofJson?, kind?_eq found]
    rfl

theorem decodes_other {document : Json} (fits : Fits (.node .astOtherStatement) (some document)) :
    Decodes (Statement.ofJson? document) Statement.Recognised := by
  obtain ⟨-, location, -⟩ := fits.members rfl
  obtain ⟨kind, read⟩ := ofJson?_other fits
  rw [read]
  exact (decodes_location location).map fun _ _ => trivial

mutual

theorem decodes_statement {document : Json} (fits : Fits (.node .astStatement) (some document)) :
    Decodes (Statement.ofJson? document) Statement.Recognised := by
  obtain ⟨option, listed, inside⟩ := fits.node.union
  simp only [List.mem_cons, List.not_mem_nil, or_false] at listed
  rcases listed with rfl | rfl | rfl | rfl
  · obtain ⟨kind, statements, location, -⟩ := inside.deferred.members rfl
    rw [Statement.ofJson?, kind.kind]
    refine (decodes_items statements).bind fun ⟨elements, smaller⟩ each => ?_
    refine (decodes_statements each).bind fun _ recognised => ?_
    exact (decodes_location location).bind fun _ _ => .pure recognised
  · obtain ⟨kind, location, -⟩ := inside.members rfl
    rw [Statement.ofJson?, kind.kind]
    exact (decodes_location location).map fun _ _ => trivial
  · obtain ⟨kind, operations, location, -⟩ := inside.members rfl
    rw [Statement.ofJson?, kind.kind]
    refine (decodes_member operations (operations.present rfl)).bind fun _ fits => ?_
    refine (Asm.decodes_block fits).bind fun _ recognised => ?_
    exact (decodes_location location).bind fun _ _ => .pure recognised
  · exact decodes_other inside
termination_by sizeOf document

theorem decodes_statements {documents : List Json}
    (each : ∀ document ∈ documents, Fits (.node .astStatement) (some document)) :
    Decodes (statementsOfJson? documents) StatementsRecognised := by
  cases documents with
  | nil =>
    rw [statementsOfJson?]
    exact .pure trivial
  | cons document rest =>
    rw [statementsOfJson?]
    have first := decodes_statement (each document List.mem_cons_self)
    have others := decodes_statements fun other mem => each other (List.mem_cons_of_mem _ mem)
    exact first.cons others fun _ _ held more => ⟨held, more⟩
termination_by sizeOf documents

end

theorem decodes_block {document : Json} (fits : Fits (.node .astBlock) (some document)) :
    Decodes (Block.ofJson? document) Block.Recognised := by
  obtain ⟨kind, statements, location, -⟩ := fits.members rfl
  obtain ⟨elements, found, each⟩ := statements.array
  rw [Block.ofJson?, found]
  refine (decodes_statements each).bind fun _ recognised => ?_
  exact (decodes_location location).bind fun _ _ => .pure recognised

/-! ## Contracts that fit -/

theorem decodes_declarations {document : Json} {name : Text}
    (fits : Fits NodeType.namedDeclarations (document.member? name)) :
    Decodes (document.listAt? name NamedDeclaration.ofJson?) fun _ => True := by
  have each : ∀ element, Fits (.object [("name", .text), ("location", NodeType.maybeLocation)]) (some element) →
      Decodes (NamedDeclaration.ofJson? element) fun _ => True := by
    intro element inside
    obtain ⟨name, location, -⟩ := inside.object (by decide)
    refine (decodes_text name).bind fun _ _ => ?_
    exact (decodes_maybeLocation location).bind fun _ _ => .pure trivial
  exact (decodes_list fits each).mono fun _ _ => trivial

theorem decodes_parameters {document : Json} {name : Text}
    (fits : Fits NodeType.parameters (document.member? name)) :
    Decodes (document.listAt? name Parameter.ofJson?) fun _ => True := by
  have each : ∀ element, Fits (.node .astParameter) (some element) →
      Decodes (Parameter.ofJson? element) fun _ => True := by
    intro element inside
    obtain ⟨name, type, -⟩ := inside.members rfl
    exact (decodes_text name).bind fun _ _ => (decodes_text type).bind fun _ _ => .pure trivial
  exact (decodes_list fits each).mono fun _ _ => trivial

theorem decodes_function {document : Json} (fits : Fits (.node .astFunction) (some document)) :
    Decodes (Function.ofJson? document) Function.Recognised := by
  obtain ⟨-, name, kind, visibility, mutability, implemented, modifiers, parameters, results, body,
    location, -⟩ := fits.members rfl
  obtain ⟨flag, found⟩ := implemented.boolean
  refine (decodes_text name).bind fun _ _ => ?_
  refine (decodes_oneOf kind).bind fun _ declared => (decodes_name declared).bind fun _ _ => ?_
  refine (decodes_oneOf visibility).bind fun _ declared => (decodes_name declared).bind fun _ _ => ?_
  refine (decodes_oneOf mutability).bind fun _ declared => (decodes_name declared).bind fun _ _ => ?_
  rw [found]
  refine (decodes_declarations modifiers).bind fun _ _ => ?_
  refine (decodes_parameters parameters).bind fun _ _ => ?_
  refine (decodes_parameters results).bind fun _ _ => ?_
  refine (decodes_optional body fun _ inside => decodes_block inside).bind fun _ recognised => ?_
  exact (decodes_location location).bind fun _ _ => .pure recognised

theorem decodes_contract {document : Json} (fits : Fits (.node .astContract) (some document)) :
    Decodes (Contract.ofJson? document) Contract.Recognised := by
  obtain ⟨-, name, qualified, kind, bases, structs, enums, events, modifiers, functions, location, -⟩ :=
    fits.members rfl
  refine (decodes_text name).bind fun _ _ => (decodes_text qualified).bind fun _ _ => ?_
  refine (decodes_oneOf kind).bind fun _ declared => (decodes_name declared).bind fun _ _ => ?_
  refine (decodes_declarations bases).bind fun _ _ => (decodes_declarations structs).bind fun _ _ => ?_
  refine (decodes_declarations enums).bind fun _ _ => (decodes_declarations events).bind fun _ _ => ?_
  refine (decodes_declarations modifiers).bind fun _ _ => ?_
  refine (decodes_list functions fun _ inside => decodes_function inside).bind fun _ recognised => ?_
  exact (decodes_location location).bind fun _ _ => .pure recognised

theorem decodes_sourceUnit {document : Json}
    (fits : Fits DocumentType.sourceUnit.schema (some document)) :
    Decodes (SourceUnit.ofJson? document) SourceUnit.Recognised := by
  obtain ⟨-, path, contracts, -⟩ := fits.object (by decide)
  refine (decodes_text path).bind fun _ _ => ?_
  exact (decodes_list contracts fun _ inside => decodes_contract inside).bind fun _ recognised =>
    .pure recognised

end ContractAsm.Source

import ContractAsm.Proofs.Asm.Restoring
import ContractAsm.Proofs.Ir.Conformity
import ContractAsm.Proofs.Source.Leaves
import ContractAsm.Proofs.Validation.Acceptance

/-!
# What source units hand on

Of a source unit, lowering hands on locations and the operations of inline assembly. In a unit
that was accepted both conform to the schemas of the output, since the input is checked by the
same ones.
-/

namespace ContractAsm

open Schema

/-- Assembly that fits its schema is read as operations that conform to it. -/
theorem Asm.decodes_conforming {document : Json} (fits : Fits (.node .asmBlock) (some document)) :
    Decodes (Asm.Block.ofJson? document) Asm.Block.Conforms := by
  refine (Asm.restores_block fits).mono fun operations same => ?_
  rw [Asm.Block.Conforms, same]
  exact fits.whole trivial

namespace Source

/-! ## What is handed on -/

/-- What lowering hands on of a statement that is no block conforms. -/
def LeafConforms : Statement → Prop
  | .throw location => Placed (some location)
  | .inlineAssembly operations location => operations.Conforms ∧ Placed (some location)
  | _ => True

def Function.Conforms (function : Function) : Prop :=
  Placed (some function.location) ∧ ∀ leaf ∈ function.leaves, LeafConforms leaf

def Contract.Conforms (contract : Contract) : Prop :=
  Placed (some contract.location) ∧ ∀ function ∈ contract.functions, function.Conforms

def SourceUnit.Conforms (source : SourceUnit) : Prop := ∀ contract ∈ source.contracts, contract.Conforms

/-! ## Statements that fit -/

theorem decodes_placed {document : Json}
    (fits : Fits (.node .sourceLocation) (document.member? "location")) :
    Decodes (locationOf? document) fun location => Placed (some location) := by
  refine (restores_member fits (fits.present rfl)).bind fun _ ⟨_, inside⟩ => ?_
  refine (restores_location inside).mono fun location same => ?_
  rintro _ ⟨⟩
  rw [same]
  exact inside.whole trivial

mutual

theorem decodes_conformingStatement {document : Json} (fits : Fits (.node .astStatement) (some document)) :
    Decodes (Statement.ofJson? document) fun read => ∀ leaf ∈ read.leaves, LeafConforms leaf := by
  obtain ⟨option, listed, inside⟩ := fits.node.union
  simp only [List.mem_cons, List.not_mem_nil, or_false] at listed
  rcases listed with rfl | rfl | rfl | rfl
  · obtain ⟨kind, statements, location, -⟩ := inside.deferred.members rfl
    rw [Statement.ofJson?, kind.kind]
    refine (decodes_items statements).bind fun ⟨elements, smaller⟩ each => ?_
    refine (decodes_conformingStatements each).bind fun _ conform => ?_
    exact (decodes_location location).bind fun _ _ => .pure conform
  · obtain ⟨kind, location, -⟩ := inside.members rfl
    rw [Statement.ofJson?, kind.kind]
    exact (decodes_placed location).map fun _ placed => List.forall_mem_singleton.mpr placed
  · obtain ⟨kind, operations, location, -⟩ := inside.members rfl
    rw [Statement.ofJson?, kind.kind]
    refine (decodes_member operations (operations.present rfl)).bind fun _ fits => ?_
    refine (Asm.decodes_conforming fits).bind fun _ conforms => ?_
    exact (decodes_placed location).bind fun _ placed =>
      .pure (List.forall_mem_singleton.mpr ⟨conforms, placed⟩)
  · obtain ⟨-, location, -⟩ := inside.members rfl
    obtain ⟨kind, read⟩ := ofJson?_other inside
    rw [read]
    exact (decodes_location location).map fun _ _ => List.forall_mem_singleton.mpr trivial
termination_by sizeOf document

theorem decodes_conformingStatements {documents : List Json}
    (each : ∀ document ∈ documents, Fits (.node .astStatement) (some document)) :
    Decodes (statementsOfJson? documents) fun read => ∀ leaf ∈ leavesOf read, LeafConforms leaf := by
  cases documents with
  | nil =>
    rw [statementsOfJson?]
    exact .pure fun _ member => nomatch member
  | cons document rest =>
    rw [statementsOfJson?]
    have first := decodes_conformingStatement (each document List.mem_cons_self)
    have others := decodes_conformingStatements fun other mem => each other (List.mem_cons_of_mem _ mem)
    exact first.cons others fun _ _ conform more => List.forall_mem_append.mpr ⟨conform, more⟩
termination_by sizeOf documents

end

theorem decodes_conformingBlock {document : Json} (fits : Fits (.node .astBlock) (some document)) :
    Decodes (Block.ofJson? document) fun read => ∀ leaf ∈ leavesOf read.statements, LeafConforms leaf := by
  obtain ⟨kind, statements, location, -⟩ := fits.members rfl
  obtain ⟨elements, found, each⟩ := statements.array
  rw [Block.ofJson?, found]
  refine (decodes_conformingStatements each).bind fun _ conform => ?_
  exact (decodes_location location).bind fun _ _ => .pure conform

/-! ## Contracts that fit -/

theorem decodes_conformingFunction {document : Json} (fits : Fits (.node .astFunction) (some document)) :
    Decodes (Function.ofJson? document) Function.Conforms := by
  obtain ⟨-, name, kind, visibility, mutability, implemented, modifiers, parameters, results, body,
    location, -⟩ := fits.members rfl
  obtain ⟨flag, found⟩ := implemented.boolean
  refine (decodes_text name).bind fun _ _ => ?_
  refine (decodes_oneOf kind).bind fun _ declared => (decodes_name declared).bind fun _ _ => ?_
  refine (decodes_oneOf visibility).bind fun _ declared => (decodes_name declared).bind fun _ _ => ?_
  refine (decodes_oneOf mutability).bind fun _ declared => (decodes_name declared).bind fun _ _ => ?_
  rw [found]
  refine (decodes_declarations modifiers).bind fun _ _ => ?_
  refine (decodes_parameters parameters).bind fun _ _ => ?_
  refine (decodes_parameters results).bind fun _ _ => ?_
  refine (decodes_optional body fun _ inside => decodes_conformingBlock inside).bind fun _ conform => ?_
  refine (decodes_placed location).bind fun _ placed => .pure ⟨placed, fun leaf member => ?_⟩
  obtain ⟨block, declared, inside⟩ := Function.mem_leaves.mp member
  exact conform block declared leaf inside

theorem decodes_conformingContract {document : Json} (fits : Fits (.node .astContract) (some document)) :
    Decodes (Contract.ofJson? document) Contract.Conforms := by
  obtain ⟨-, name, qualified, kind, bases, structs, enums, events, modifiers, functions, location, -⟩ :=
    fits.members rfl
  refine (decodes_text name).bind fun _ _ => (decodes_text qualified).bind fun _ _ => ?_
  refine (decodes_oneOf kind).bind fun _ declared => (decodes_name declared).bind fun _ _ => ?_
  refine (decodes_declarations bases).bind fun _ _ => (decodes_declarations structs).bind fun _ _ => ?_
  refine (decodes_declarations enums).bind fun _ _ => (decodes_declarations events).bind fun _ _ => ?_
  refine (decodes_declarations modifiers).bind fun _ _ => ?_
  refine (decodes_list functions fun _ inside => decodes_conformingFunction inside).bind fun _ conform => ?_
  exact (decodes_placed location).bind fun _ placed => .pure ⟨placed, conform⟩

theorem decodes_conformingUnit {document : Json}
    (fits : Fits DocumentType.sourceUnit.schema (some document)) :
    Decodes (SourceUnit.ofJson? document) SourceUnit.Conforms := by
  obtain ⟨-, path, contracts, -⟩ := fits.object (by decide)
  refine (decodes_text path).bind fun _ _ => ?_
  exact (decodes_list contracts fun _ inside => decodes_conformingContract inside).bind fun _ conform =>
    .pure conform

/-- What an accepted source unit hands on conforms. -/
theorem conforms_of_sourceUnit {document : Json} {source : Validation.ValidSourceUnit}
    (accepted : Validation.sourceUnit document = .valid (some source)) : source.tree.Conforms := by
  obtain ⟨fits, read⟩ := Validation.fits_of_sourceUnit accepted
  obtain ⟨tree, found, conforms⟩ := decodes_conformingUnit fits
  cases read.symm.trans found
  exact conforms

end Source

end ContractAsm

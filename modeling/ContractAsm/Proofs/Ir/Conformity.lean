import ContractAsm.Ir.Document
import ContractAsm.Proofs.Schema.Wholeness

/-!
# Conforming trees

A tree conforms if its document is kept whole by the schema of its node type. One law for each
way of building a node says what its parts have to be: locations within bounds, a type on every
literal and declared name, a name at least where names are declared or assigned, and operations
that conform to the schema of assembly.
-/

namespace ContractAsm

open Schema

/-! ## Leaves -/

def Literal.Conforms (literal : Literal) : Prop := KeepsWhole (.node .irLiteral) (some literal.toJson)

/-- The type of the name is written, be it the empty one. -/
def TypedName.IsTyped (declared : TypedName) : Prop := ∃ type, declared.type = some type

theorem Literal.Kind.mem_all (kind : Literal.Kind) : kind ∈ Literal.Kind.all := by
  cases kind <;> decide

theorem Literal.conforms {kind : Literal.Kind} {value type : Text} {location : Option Location}
    (placed : Placed location) : Literal.Conforms ⟨kind, value, some type, location⟩ := by
  have known : KeepsWhole NodeType.literalKinds (some (.string kind.name)) :=
    .oneOf (List.mem_map_of_mem kind.mem_all)
  exact KeepsWhole.node rfl
    (.cons ⟨rfl, known⟩ (.cons ⟨rfl, .text value⟩ (.cons ⟨rfl, .text type⟩ .nil))) placed

theorem TypedName.IsTyped.whole {declared : TypedName} (typed : declared.IsTyped) :
    KeepsWhole NodeType.irDeclared (some declared.toJson) := by
  obtain ⟨name, type⟩ := declared
  obtain ⟨type, rfl⟩ := typed
  exact KeepsWhole.ofPresent (.cons ⟨rfl, .text name⟩ (.cons ⟨rfl, .text type⟩ .nil)) (by decide)

theorem Schema.KeepsWhole.each {α : Type} {item : Schema} {values : List α} {toJson : α → Json}
    (whole : ∀ value ∈ values, KeepsWhole item (some (toJson value))) :
    ∀ element ∈ values.map toJson, KeepsWhole item (some element) := by
  intro element member
  obtain ⟨value, listed, rfl⟩ := List.mem_map.mp member
  exact whole value listed

theorem whole_typedNames {names : List TypedName} (typed : ∀ declared ∈ names, declared.IsTyped) :
    KeepsWhole (.listOf NodeType.irDeclared) (some (Asm.typedNamesDocument names)) :=
  .list (.each fun declared listed => (typed declared listed).whole)

/-- Assembly that is carried over conforms to the schema of assembly. -/
def Asm.Block.Conforms (operations : Asm.Block) : Prop :=
  KeepsWhole (.node .asmBlock) (some operations.toJson)

namespace Ir

/-! ## Conforming nodes -/

def Expression.Conforms (expression : Expression) : Prop :=
  KeepsWhole (.node .irExpression) (some expression.toJson)

def Statement.Conforms (statement : Statement) : Prop :=
  KeepsWhole (.node .irStatement) (some statement.toJson)

def Case.Conforms (case : Case) : Prop := KeepsWhole (.node .irCase) (some case.toJson)

def Block.Conforms (block : Block) : Prop := KeepsWhole (.node .irBlock) (some block.toJson)

/-! ## Expressions -/

theorem Expression.conforms_literal {literal : Literal} (conforms : literal.Conforms) :
    (Expression.literal literal).Conforms := by
  exact KeepsWhole.option conforms rfl (.head _)

section

variable {location : Option Location} (placed : Placed location)

include placed

theorem Expression.conforms_identifier (name : Text) : (Expression.identifier name location).Conforms := by
  have whole : KeepsWhole (.node .irIdentifier) (some (Expression.identifier name location).toJson) := by
    rw [Expression.toJson]
    exact KeepsWhole.node rfl (.cons ⟨rfl, .text name⟩ .nil) placed
  exact whole.option rfl (.tail _ (.head _))

theorem Expression.conforms_functionCall (name : Text) {arguments : List Expression}
    (each : ∀ argument ∈ arguments, argument.Conforms) :
    (Expression.functionCall name arguments location).Conforms := by
  have whole : KeepsWhole (.node .irFunctionCall)
      (some (Expression.functionCall name arguments location).toJson) := by
    rw [Expression.toJson, expressionDocuments_eq]
    exact KeepsWhole.node rfl (.cons ⟨rfl, .text name⟩ (.cons ⟨rfl, .list (.each each)⟩ .nil)) placed
  exact whole.option rfl (.tail _ (.tail _ (.head _)))

/-! ## Blocks and cases -/

theorem Block.conforms {statements : List Statement} (each : ∀ statement ∈ statements, statement.Conforms) :
    (Block.mk statements location).Conforms := by
  rw [Block.Conforms, Block.toJson, statementDocuments_eq]
  exact KeepsWhole.node rfl (.cons ⟨rfl, .list (.each each)⟩ .nil) placed

theorem Case.conforms_value {value : Literal} {body : Block} (tested : value.Conforms)
    (inside : body.Conforms) : (Case.mk (some (.literal value)) body location).Conforms := by
  rw [Case.Conforms, Case.toJson]
  exact KeepsWhole.node rfl (.cons ⟨rfl, .nullable tested⟩ (.cons ⟨rfl, inside⟩ .nil)) placed

theorem Case.conforms_default {body : Block} (inside : body.Conforms) :
    (Case.mk none body location).Conforms := by
  rw [Case.Conforms, Case.toJson]
  exact KeepsWhole.node rfl (.cons ⟨rfl, .null⟩ (.cons ⟨rfl, inside⟩ .nil)) placed

end

/-! ## Statements -/

theorem Statement.conforms_of {statement : Statement} {inner : NodeType}
    (whole : KeepsWhole (.node inner) (some statement.toJson))
    (listed : .node inner ∈ [Schema.node .irExpression, .node .irVariableDeclaration, .node .irAssignment,
      .node .irFunctionDefinition, .node .irCase, .node .irSwitch, .node .irIf, .node .irForLoop,
      .node .irBreak, .node .irContinue, .deferred .irBlock, .node .irInlineAssembly]) :
    statement.Conforms := whole.option rfl listed

theorem Statement.conforms_expression {expression : Expression} (conforms : expression.Conforms) :
    (Statement.expression expression).Conforms := by
  have whole : KeepsWhole (.node .irExpression) (some (Statement.expression expression).toJson) := by
    rw [Statement.toJson_expression]
    exact conforms
  exact Statement.conforms_of whole (by simp)

theorem Statement.conforms_block {block : Block} (conforms : block.Conforms) :
    (Statement.block block).Conforms := by
  rw [Statement.Conforms, Statement.toJson_block]
  cases conforms with
  | node inner => exact Keeps.node (.union (by simp) (.deferred inner))

section

variable {location : Option Location} (placed : Placed location)

include placed

theorem Statement.conforms_variableDeclaration {names : List TypedName} {value : Option Expression}
    (some : names ≠ []) (typed : ∀ declared ∈ names, declared.IsTyped)
    (initial : ∀ expression ∈ value, expression.Conforms) :
    (Statement.variableDeclaration names value location).Conforms := by
  have declared : KeepsWhole (.nonEmptyListOf NodeType.irDeclared) (Option.some (Asm.typedNamesDocument names)) :=
    .nonEmptyList (mt List.map_eq_nil_iff.mp some) (.each fun declared listed => (typed declared listed).whole)
  have given : KeepsWhole (.optional (.node .irExpression)) (value.map Expression.toJson) := by
    apply KeepsWhole.optional
    intro document found
    obtain ⟨expression, same, rfl⟩ := Option.map_eq_some_iff.mp found
    exact initial expression same
  have whole : KeepsWhole (.node .irVariableDeclaration)
      (Option.some (Statement.variableDeclaration names value location).toJson) := by
    rw [Statement.toJson]
    exact KeepsWhole.node rfl (.cons ⟨rfl, declared⟩ (.cons ⟨rfl, given⟩ .nil)) placed
  exact Statement.conforms_of whole (by simp)

theorem Statement.conforms_assignment {names : List Text} {value : Expression} (some : names ≠ [])
    (conforms : value.Conforms) : (Statement.assignment names value location).Conforms := by
  have targets : KeepsWhole (.nonEmptyListOf .text) (Option.some (Asm.textsDocument names)) :=
    .nonEmptyList (mt List.map_eq_nil_iff.mp some) (.each fun name _ => .text name)
  have whole : KeepsWhole (.node .irAssignment)
      (Option.some (Statement.assignment names value location).toJson) := by
    rw [Statement.toJson]
    exact KeepsWhole.node rfl (.cons ⟨rfl, targets⟩ (.cons ⟨rfl, conforms⟩ .nil)) placed
  exact Statement.conforms_of whole (by simp)

theorem Statement.conforms_functionDefinition (name : Text) {parameters results : List TypedName}
    {body : Block} (taken : ∀ declared ∈ parameters, declared.IsTyped)
    (given : ∀ declared ∈ results, declared.IsTyped) (inside : body.Conforms) :
    (Statement.functionDefinition name parameters results body location).Conforms := by
  have whole : KeepsWhole (.node .irFunctionDefinition)
      (some (Statement.functionDefinition name parameters results body location).toJson) := by
    rw [Statement.toJson]
    exact KeepsWhole.node rfl (.cons ⟨rfl, .text name⟩ (.cons ⟨rfl, whole_typedNames taken⟩
      (.cons ⟨rfl, whole_typedNames given⟩ (.cons ⟨rfl, inside⟩ .nil)))) placed
  exact Statement.conforms_of whole (by simp)

theorem Statement.conforms_switch {value : Expression} {cases : List Case} (tested : value.Conforms)
    (each : ∀ case ∈ cases, case.Conforms) : (Statement.switch value cases location).Conforms := by
  have whole : KeepsWhole (.node .irSwitch) (some (Statement.switch value cases location).toJson) := by
    rw [Statement.toJson, caseDocuments_eq]
    exact KeepsWhole.node rfl (.cons ⟨rfl, tested⟩ (.cons ⟨rfl, .list (.each each)⟩ .nil)) placed
  exact Statement.conforms_of whole (by simp)

theorem Statement.conforms_ifThen {condition : Expression} {body : Block} (tested : condition.Conforms)
    (inside : body.Conforms) : (Statement.ifThen condition body location).Conforms := by
  have whole : KeepsWhole (.node .irIf) (some (Statement.ifThen condition body location).toJson) := by
    rw [Statement.toJson]
    exact KeepsWhole.node rfl (.cons ⟨rfl, tested⟩ (.cons ⟨rfl, inside⟩ .nil)) placed
  exact Statement.conforms_of whole (by simp)

theorem Statement.conforms_forLoop {pre post body : Block} {condition : Expression}
    (prepared : pre.Conforms) (tested : condition.Conforms) (advanced : post.Conforms)
    (inside : body.Conforms) : (Statement.forLoop pre condition post body location).Conforms := by
  have whole : KeepsWhole (.node .irForLoop)
      (some (Statement.forLoop pre condition post body location).toJson) := by
    rw [Statement.toJson]
    exact KeepsWhole.node rfl (.cons ⟨rfl, prepared⟩ (.cons ⟨rfl, tested⟩
      (.cons ⟨rfl, advanced⟩ (.cons ⟨rfl, inside⟩ .nil)))) placed
  exact Statement.conforms_of whole (by simp)

theorem Statement.conforms_breakLoop : (Statement.breakLoop location).Conforms := by
  have whole : KeepsWhole (.node .irBreak) (some (Statement.breakLoop location).toJson) := by
    rw [Statement.toJson]
    exact KeepsWhole.node rfl .nil placed
  exact Statement.conforms_of whole (by simp)

theorem Statement.conforms_continueLoop : (Statement.continueLoop location).Conforms := by
  have whole : KeepsWhole (.node .irContinue) (some (Statement.continueLoop location).toJson) := by
    rw [Statement.toJson]
    exact KeepsWhole.node rfl .nil placed
  exact Statement.conforms_of whole (by simp)

theorem Statement.conforms_inlineAssembly {operations : Asm.Block} (conforms : operations.Conforms) :
    (Statement.inlineAssembly operations location).Conforms := by
  have whole : KeepsWhole (.node .irInlineAssembly)
      (some (Statement.inlineAssembly operations location).toJson) := by
    rw [Statement.toJson]
    exact KeepsWhole.node rfl (.cons ⟨rfl, conforms⟩ .nil) placed
  exact Statement.conforms_of whole (by simp)

end

end Ir

end ContractAsm

import ContractAsm.Literal
import ContractAsm.Schema.Basic
import ContractAsm.Source.Basic

/-!
# The node types

The schema, the name and the description of every node type, and of the two documents: the
source unit that is read and the contract that is written.
-/

namespace ContractAsm

namespace NodeType

def all : List NodeType :=
  [.sourceLocation, .asmLiteral, .asmIdentifier, .asmFunctionalInstruction, .asmFunctionCall,
    .asmExpression, .asmAssignment, .asmVariableDeclaration, .asmFunctionDefinition, .asmIf,
    .asmCase, .asmSwitch, .asmForLoop, .asmLabel, .asmStackAssignment, .asmInstruction,
    .asmStatement, .asmBlock, .astParameter, .astThrow, .astInlineAssembly, .astOtherStatement,
    .astStatement, .astBlock, .astFunction, .astContract, .irLiteral, .irIdentifier,
    .irFunctionCall, .irExpression, .irVariableDeclaration, .irAssignment, .irFunctionDefinition,
    .irCase, .irSwitch, .irIf, .irForLoop, .irBreak, .irContinue, .irInlineAssembly,
    .irStatement, .irBlock]

/-- The name under which documents refer to the type. -/
def name : NodeType → Text
  | sourceLocation => "SourceLocation"
  | asmLiteral => "AsmLiteral"
  | asmIdentifier => "AsmIdentifier"
  | asmFunctionalInstruction => "AsmFunctionalInstruction"
  | asmFunctionCall => "AsmFunctionCall"
  | asmExpression => "AsmExpression"
  | asmAssignment => "AsmAssignment"
  | asmVariableDeclaration => "AsmVariableDeclaration"
  | asmFunctionDefinition => "AsmFunctionDefinition"
  | asmIf => "AsmIf"
  | asmCase => "AsmCase"
  | asmSwitch => "AsmSwitch"
  | asmForLoop => "AsmForLoop"
  | asmLabel => "AsmLabel"
  | asmStackAssignment => "AsmStackAssignment"
  | asmInstruction => "AsmInstruction"
  | asmStatement => "AsmStatement"
  | asmBlock => "AsmBlock"
  | astParameter => "AstParameter"
  | astThrow => "AstThrow"
  | astInlineAssembly => "AstInlineAssembly"
  | astOtherStatement => "AstOtherStatement"
  | astStatement => "AstStatement"
  | astBlock => "AstBlock"
  | astFunction => "AstFunction"
  | astContract => "AstContract"
  | irLiteral => "IrLiteral"
  | irIdentifier => "IrIdentifier"
  | irFunctionCall => "IrFunctionCall"
  | irExpression => "IrExpression"
  | irVariableDeclaration => "IrVariableDeclaration"
  | irAssignment => "IrAssignment"
  | irFunctionDefinition => "IrFunctionDefinition"
  | irCase => "IrCase"
  | irSwitch => "IrSwitch"
  | irIf => "IrIf"
  | irForLoop => "IrForLoop"
  | irBreak => "IrBreak"
  | irContinue => "IrContinue"
  | irInlineAssembly => "IrInlineAssembly"
  | irStatement => "IrStatement"
  | irBlock => "IrBlock"

def ofName? (name : Text) : Option NodeType := all.find? fun type => type.name == name

def title : NodeType → Text
  | sourceLocation => "Source Location"
  | asmLiteral => "Assembly Literal"
  | asmIdentifier => "Assembly Identifier"
  | asmFunctionalInstruction => "Functional Instruction"
  | asmFunctionCall => "Assembly Function Call"
  | asmExpression => "Assembly Expression"
  | asmAssignment => "Assembly Assignment"
  | asmVariableDeclaration => "Assembly Variable Declaration"
  | asmFunctionDefinition => "Assembly Function Definition"
  | asmIf => "Assembly If"
  | asmCase => "Assembly Switch Case"
  | asmSwitch => "Assembly Switch"
  | asmForLoop => "Assembly For Loop"
  | asmLabel => "Assembly Label"
  | asmStackAssignment => "Stack Assignment"
  | asmInstruction => "Raw Instruction"
  | asmStatement => "Assembly Statement"
  | asmBlock => "Assembly Block"
  | astParameter => "Parameter"
  | astThrow => "Throw Statement"
  | astInlineAssembly => "Inline Assembly Statement"
  | astOtherStatement => "Other Statement"
  | astStatement => "Statement"
  | astBlock => "Block Statement"
  | astFunction => "Function Definition"
  | astContract => "Contract Definition"
  | irLiteral => "Typed Literal"
  | irIdentifier => "Identifier"
  | irFunctionCall => "Function Call"
  | irExpression => "Expression"
  | irVariableDeclaration => "Variable Declaration"
  | irAssignment => "Assignment"
  | irFunctionDefinition => "Function Definition"
  | irCase => "Switch Case"
  | irSwitch => "Switch"
  | irIf => "If"
  | irForLoop => "For Loop"
  | irBreak => "Break"
  | irContinue => "Continue"
  | irInlineAssembly => "Inline Assembly Passthrough"
  | irStatement => "Statement"
  | irBlock => "Block"

def description? : NodeType → Option Text
  | sourceLocation => some "Character range in a source file"
  | asmLiteral => some "Number, string or boolean literal in inline assembly"
  | asmFunctionalInstruction => some "Opcode applied to arguments, e.g. mstore(0, 1)"
  | asmCase => some "Case with a literal value, or null for default"
  | asmLabel => some "Legacy jump label"
  | asmStackAssignment => some "Legacy =: x assignment from the stack"
  | asmInstruction => some "Legacy bare opcode"
  | astParameter => some "Parameter with its canonical ABI type name"
  | astOtherStatement => some "Statement kinds this stage does not lower"
  | irLiteral => some "Literal with an explicit type tag such as u256"
  | irCase => some "Case with a literal value, or null for default"
  | _ => none

/-! ## Schemas -/

def maybeLocation : Schema := .optional (.node sourceLocation)

def asmNode (kind : Text) (fields : List (Text × Schema)) : Schema :=
  .nodeObject kind fields maybeLocation

def sourceNode (kind : Text) (fields : List (Text × Schema)) : Schema :=
  .nodeObject kind fields (.node sourceLocation)

def literalKinds : Schema := .oneOf (Literal.Kind.all.map Literal.Kind.name)

def asmDeclared : Schema := .object [("name", .text), ("type", .optional .text)]

def irDeclared : Schema := .object [("name", .text), ("type", .text)]

def namedDeclarations : Schema := .listOf (.object [("name", .text), ("location", maybeLocation)])

def parameters : Schema := .listOf (.node astParameter)

/-- The values that the type accepts. -/
def schema : NodeType → Schema
  | sourceLocation => .object [("start", .offset), ("end", .offset), ("source", .optional .text)]
  | asmLiteral => asmNode "literal"
      [("literalKind", literalKinds), ("value", .text), ("type", .optional .text)]
  | asmIdentifier => asmNode "identifier" [("name", .text)]
  | asmFunctionalInstruction => asmNode "functionalInstruction"
      [("instruction", .text), ("arguments", .listOf (.node asmExpression))]
  | asmFunctionCall => asmNode "functionCall"
      [("functionName", .text), ("arguments", .listOf (.node asmExpression))]
  | asmExpression => .union
      [.node asmLiteral, .node asmIdentifier, .node asmFunctionalInstruction, .node asmFunctionCall]
  | asmAssignment => asmNode "assignment"
      [("variableNames", .nonEmptyListOf .text), ("value", .node asmExpression)]
  | asmVariableDeclaration => asmNode "variableDeclaration"
      [("variables", .nonEmptyListOf asmDeclared), ("value", .optional (.node asmExpression))]
  | asmFunctionDefinition => asmNode "functionDefinition"
      [("name", .text), ("parameters", .listOf asmDeclared),
        ("returnVariables", .listOf asmDeclared), ("body", .node asmBlock)]
  | asmIf => asmNode "if" [("condition", .node asmExpression), ("body", .node asmBlock)]
  | asmCase => .object [("value", .nullable (.node asmLiteral)), ("body", .node asmBlock)]
  | asmSwitch => asmNode "switch"
      [("expression", .node asmExpression), ("cases", .listOf (.node asmCase))]
  | asmForLoop => asmNode "forLoop"
      [("pre", .node asmBlock), ("condition", .node asmExpression), ("post", .node asmBlock),
        ("body", .node asmBlock)]
  | asmLabel => asmNode "label" [("name", .text)]
  | asmStackAssignment => asmNode "stackAssignment" [("variableName", .text)]
  | asmInstruction => asmNode "instruction" [("instruction", .text)]
  | asmStatement => .union
      [.node asmExpression, .node asmAssignment, .node asmVariableDeclaration,
        .node asmFunctionDefinition, .node asmIf, .node asmSwitch, .node asmForLoop,
        .deferred asmBlock, .node asmLabel, .node asmStackAssignment, .node asmInstruction]
  | asmBlock => asmNode "block" [("statements", .listOf (.node asmStatement))]
  | astParameter => .object [("name", .text), ("type", .nonEmptyText)]
  | astThrow => sourceNode "throw" []
  | astInlineAssembly => sourceNode "inlineAssembly" [("operations", .node asmBlock)]
  | astOtherStatement => .object
      [("kind", .oneOf (Source.OtherKind.all.map Source.OtherKind.name)),
        ("location", .node sourceLocation)]
  | astStatement => .union
      [.deferred astBlock, .node astThrow, .node astInlineAssembly, .node astOtherStatement]
  | astBlock => sourceNode "block" [("statements", .listOf (.node astStatement))]
  | astFunction => sourceNode "function"
      [("name", .text),
        ("functionKind", .oneOf (Source.Function.Kind.all.map Source.Function.Kind.name)),
        ("visibility", .oneOf (Source.Visibility.all.map Source.Visibility.name)),
        ("stateMutability", .oneOf (Source.Mutability.all.map Source.Mutability.name)),
        ("implemented", .boolean), ("modifiers", namedDeclarations), ("parameters", parameters),
        ("returnParameters", parameters), ("body", .optional (.node astBlock))]
  | astContract => sourceNode "contract"
      [("name", .nonEmptyText), ("fullyQualifiedName", .nonEmptyText),
        ("contractKind", .oneOf (Source.Contract.Kind.all.map Source.Contract.Kind.name)),
        ("baseContracts", namedDeclarations), ("structs", namedDeclarations),
        ("enums", namedDeclarations), ("events", namedDeclarations),
        ("modifiers", namedDeclarations), ("functions", .listOf (.node astFunction))]
  | irLiteral => asmNode "literal"
      [("literalKind", literalKinds), ("value", .text), ("type", .text)]
  | irIdentifier => asmNode "identifier" [("name", .text)]
  | irFunctionCall => asmNode "functionCall"
      [("functionName", .text), ("arguments", .listOf (.node irExpression))]
  | irExpression => .union [.node irLiteral, .node irIdentifier, .node irFunctionCall]
  | irVariableDeclaration => asmNode "variableDeclaration"
      [("variables", .nonEmptyListOf irDeclared), ("value", .optional (.node irExpression))]
  | irAssignment => asmNode "assignment"
      [("variableNames", .nonEmptyListOf .text), ("value", .node irExpression)]
  | irFunctionDefinition => asmNode "functionDefinition"
      [("name", .text), ("parameters", .listOf irDeclared),
        ("returnVariables", .listOf irDeclared), ("body", .node irBlock)]
  | irCase => asmNode "case" [("value", .nullable (.node irLiteral)), ("body", .node irBlock)]
  | irSwitch => asmNode "switch"
      [("expression", .node irExpression), ("cases", .listOf (.node irCase))]
  | irIf => asmNode "if" [("condition", .node irExpression), ("body", .node irBlock)]
  | irForLoop => asmNode "forLoop"
      [("pre", .node irBlock), ("condition", .node irExpression), ("post", .node irBlock),
        ("body", .node irBlock)]
  | irBreak => asmNode "break" []
  | irContinue => asmNode "continue" []
  | irInlineAssembly => asmNode "inlineAssembly" [("operations", .node asmBlock)]
  | irStatement => .union
      [.node irExpression, .node irVariableDeclaration, .node irAssignment,
        .node irFunctionDefinition, .node irCase, .node irSwitch, .node irIf, .node irForLoop,
        .node irBreak, .node irContinue, .deferred irBlock, .node irInlineAssembly]
  | irBlock => asmNode "block" [("statements", .listOf (.node irStatement))]

end NodeType

/-! ## Documents -/

inductive DocumentType where
  | sourceUnit
  | loweredContract
deriving DecidableEq, Repr

namespace DocumentType

def schema : DocumentType → Schema
  | sourceUnit => .object
      [("kind", .literal "sourceUnit"), ("path", .text), ("contracts", .listOf (.node .astContract))]
  | loweredContract => .object [("name", .text), ("block", .node .irBlock)]

def title : DocumentType → Text
  | sourceUnit => "Source Unit"
  | loweredContract => "Contract IR"

def description : DocumentType → Text
  | sourceUnit => "Elaborated AST of one source file"
  | loweredContract => "Root block generated for one contract"

end DocumentType

end ContractAsm

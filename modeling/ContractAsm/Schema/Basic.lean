import ContractAsm.Json.Basic

/-!
# Schemas

What a document has to look like. Named node types refer to each other, so a schema may
mention a node type in place of its schema; `NodeType.schema` is in `Schema/Nodes`.
-/

namespace ContractAsm

inductive NodeType where
  | sourceLocation
  | asmLiteral
  | asmIdentifier
  | asmFunctionalInstruction
  | asmFunctionCall
  | asmExpression
  | asmAssignment
  | asmVariableDeclaration
  | asmFunctionDefinition
  | asmIf
  | asmCase
  | asmSwitch
  | asmForLoop
  | asmLabel
  | asmStackAssignment
  | asmInstruction
  | asmStatement
  | asmBlock
  | astParameter
  | astThrow
  | astInlineAssembly
  | astOtherStatement
  | astStatement
  | astBlock
  | astFunction
  | astContract
  | irLiteral
  | irIdentifier
  | irFunctionCall
  | irExpression
  | irVariableDeclaration
  | irAssignment
  | irFunctionDefinition
  | irCase
  | irSwitch
  | irIf
  | irForLoop
  | irBreak
  | irContinue
  | irInlineAssembly
  | irStatement
  | irBlock
deriving DecidableEq, Repr

/-- What a value has to be. -/
inductive Schema where
  | string (nonEmpty : Bool)
  | boolean
  /-- A whole number from zero up to 2^53 - 1. -/
  | offset
  | literal (text : Text)
  | oneOf (texts : List Text)
  | array (item : Schema) (nonEmpty : Bool)
  | object (fields : List (Text × Schema))
  | union (options : List Schema)
  /-- The member may be absent. -/
  | optional (inner : Schema)
  | nullable (inner : Schema)
  | node (type : NodeType)
  /-- A node type that is named before it is defined; it accepts the same values. -/
  | deferred (type : NodeType)

namespace Schema

/-- Any text. -/
def text : Schema := .string false

def nonEmptyText : Schema := .string true

def listOf (item : Schema) : Schema := .array item false

def nonEmptyListOf (item : Schema) : Schema := .array item true

def isOptional : Schema → Bool
  | .optional _ => true
  | _ => false

/-- The object of a node: the kind first, the location last. -/
def nodeObject (kind : Text) (fields : List (Text × Schema)) (location : Schema) : Schema :=
  .object (("kind", .literal kind) :: fields.concat ("location", location))

end Schema

end ContractAsm

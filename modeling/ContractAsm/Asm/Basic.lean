import ContractAsm.Literal

/-!
# Inline assembly

The tree of an inline assembly block as the source holds it. Legacy forms (labels, stack
assignments, bare instructions) are statements of their own. A node whose kind is not known
at its place is kept as it came.
-/

namespace ContractAsm.Asm

inductive Expression where
  | literal (literal : Literal)
  | identifier (name : Text) (location : Option Location)
  | functionalInstruction (instruction : Text) (arguments : List Expression)
      (location : Option Location)
  | functionCall (name : Text) (arguments : List Expression) (location : Option Location)
  | unrecognised (node : Json)

/-- The statements that the typed dialect has no counterpart for. -/
inductive LegacyForm where
  | label
  | stackAssignment
  | instruction
deriving DecidableEq, Repr

namespace LegacyForm

def kind : LegacyForm → Text
  | label => "label"
  | stackAssignment => "stackAssignment"
  | instruction => "instruction"

/-- The member that holds the name of the label, of the variable or of the instruction. -/
def operandMember : LegacyForm → Text
  | label => "name"
  | stackAssignment => "variableName"
  | instruction => "instruction"

end LegacyForm

mutual

inductive Statement where
  | expression (expression : Expression)
  | assignment (names : List Text) (value : Expression) (location : Option Location)
  | variableDeclaration (names : List TypedName) (value : Option Expression)
      (location : Option Location)
  | functionDefinition (name : Text) (parameters results : List TypedName) (body : Block)
      (location : Option Location)
  | ifThen (condition : Expression) (body : Block) (location : Option Location)
  | switch (expression : Expression) (cases : List Case) (location : Option Location)
  | forLoop (pre : Block) (condition : Expression) (post body : Block) (location : Option Location)
  | block (block : Block)
  | legacy (form : LegacyForm) (operand : Text) (location : Option Location)
  | unrecognised (node : Json)

/-- A case of a switch; without a value it is the default. The value of a recognised case is
a literal. -/
inductive Case where
  | mk (value : Option Expression) (body : Block)

/-- A block. What stands where only a block can counts as one, whatever kind its document
gives; the kind is kept. -/
inductive Block where
  | mk (statements : List Statement) (location : Option Location)
      (kind : Option Json := some (.string "block"))

end

namespace Block

def statements : Block → List Statement
  | .mk statements _ _ => statements

def location : Block → Option Location
  | .mk _ location _ => location

end Block

/-- Whether a statement is a legacy form itself; what it holds is not looked at. -/
def Statement.isLegacy : Statement → Bool
  | .legacy .. => true
  | _ => false

end ContractAsm.Asm

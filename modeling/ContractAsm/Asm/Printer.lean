import ContractAsm.Asm.Basic
import ContractAsm.Layout

/-!
# Text of inline assembly

`Block.render` is the text of a tree in which every node is recognised; `Block.print?` has
no answer for any other tree. An unrecognised node has no text.
-/

namespace ContractAsm.Asm

/-! ## Text -/

mutual

def Expression.layout : Expression → Layout
  | .literal literal => Layout.literal literal
  | .identifier name _ => name
  | .functionalInstruction instruction arguments _ =>
      Layout.call instruction (expressionLayouts arguments)
  | .functionCall name arguments _ => Layout.call name (expressionLayouts arguments)
  | .unrecognised _ => ""

def expressionLayouts : List Expression → List Layout
  | [] => []
  | expression :: rest => expression.layout :: expressionLayouts rest

end

/-- The name of a label stands before a colon, the target of a stack assignment after its
mark, and a bare instruction stands alone. -/
def LegacyForm.shown (form : LegacyForm) (operand : Text) : Text :=
  match form with
  | .label => operand ++ ":"
  | .stackAssignment => "=: " ++ operand
  | .instruction => operand

mutual

def Statement.layout : Statement → Layout
  | .expression expression => expression.layout
  | .assignment names value _ => Layout.assignment names value.layout
  | .variableDeclaration names value _ => Layout.declaration names (value.map Expression.layout)
  | .functionDefinition name parameters results body _ =>
      Layout.function name parameters results body.layout
  | .ifThen condition body _ => Layout.ifThen condition.layout body.layout
  | .switch expression cases _ => Layout.switch expression.layout (caseLayouts cases)
  | .forLoop pre condition post body _ =>
      Layout.forLoop pre.layout condition.layout post.layout body.layout
  | .block block => block.layout
  | .legacy form operand _ => form.shown operand
  | .unrecognised _ => ""

def Case.layout : Case → Layout
  | .mk value body => Layout.case (value.map Expression.layout) body.layout

def Block.layout : Block → Layout
  | .mk statements _ _ => Layout.braced (statementLayouts statements)

def statementLayouts : List Statement → List Layout
  | [] => []
  | statement :: rest => statement.layout :: statementLayouts rest

def caseLayouts : List Case → List Layout
  | [] => []
  | case :: rest => case.layout :: caseLayouts rest

end

def Block.render (block : Block) : Text := block.layout.text

/-! ## Recognised trees -/

mutual

def Expression.isRecognised : Expression → Bool
  | .literal _ => true
  | .identifier _ _ => true
  | .functionalInstruction _ arguments _ => areRecognisedExpressions arguments
  | .functionCall _ arguments _ => areRecognisedExpressions arguments
  | .unrecognised _ => false

def areRecognisedExpressions : List Expression → Bool
  | [] => true
  | expression :: rest => expression.isRecognised && areRecognisedExpressions rest

end

mutual

/-- Whether every node of a statement is recognised. -/
def Statement.isRecognised : Statement → Bool
  | .expression expression => expression.isRecognised
  | .assignment _ value _ => value.isRecognised
  | .variableDeclaration _ none _ => true
  | .variableDeclaration _ (some value) _ => value.isRecognised
  | .functionDefinition _ _ _ body _ => body.isRecognised
  | .ifThen condition body _ => condition.isRecognised && body.isRecognised
  | .switch expression cases _ => expression.isRecognised && areRecognisedCases cases
  | .forLoop pre condition post body _ =>
      pre.isRecognised && condition.isRecognised && post.isRecognised && body.isRecognised
  | .block block => block.isRecognised
  | .legacy .. => true
  | .unrecognised _ => false

def Case.isRecognised : Case → Bool
  | .mk none body => body.isRecognised
  | .mk (some value) body => value.isRecognised && body.isRecognised

def Block.isRecognised : Block → Bool
  | .mk statements _ _ => areRecognised statements

def areRecognised : List Statement → Bool
  | [] => true
  | statement :: rest => statement.isRecognised && areRecognised rest

def areRecognisedCases : List Case → Bool
  | [] => true
  | case :: rest => case.isRecognised && areRecognisedCases rest

end

/-- The text of a block in which every node is recognised. -/
def Block.print? (block : Block) : Option Text :=
  if block.isRecognised then some block.render else none

end ContractAsm.Asm

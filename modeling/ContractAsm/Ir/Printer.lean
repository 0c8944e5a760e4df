import ContractAsm.Asm.Printer
import ContractAsm.Ir.Basic

/-!
# Text of the IR

`render` gives the text of a tree in which every node is recognised; `print?` has no
answer for any other tree. Inline assembly prints as the block of its operations.
-/

namespace ContractAsm.Ir

/-! ## Text -/

mutual

def Expression.layout : Expression → Layout
  | .literal literal => Layout.literal literal
  | .identifier name _ => name
  | .functionCall name arguments _ => Layout.call name (expressionLayouts arguments)
  | .unrecognised _ => ""

def expressionLayouts : List Expression → List Layout
  | [] => []
  | expression :: rest => expression.layout :: expressionLayouts rest

end

mutual

def Statement.layout : Statement → Layout
  | .expression expression => expression.layout
  | .variableDeclaration names value _ => Layout.declaration names (value.map Expression.layout)
  | .assignment names value _ => Layout.assignment names value.layout
  | .functionDefinition name parameters results body _ =>
      Layout.function name parameters results body.layout
  | .case case => case.layout
  | .switch expression cases _ => Layout.switch expression.layout (caseLayouts cases)
  | .ifThen condition body _ => Layout.ifThen condition.layout body.layout
  | .forLoop pre condition post body _ =>
      Layout.forLoop pre.layout condition.layout post.layout body.layout
  | .breakLoop _ => "break"
  | .continueLoop _ => "continue"
  | .block block => block.layout
  | .inlineAssembly operations _ => operations.layout
  | .unrecognised _ => ""

def Case.layout : Case → Layout
  | .mk value body _ => Layout.case (value.map Expression.layout) body.layout
  | .other statement => statement.layout

def Block.layout : Block → Layout
  | .mk statements _ _ => Layout.braced (statementLayouts statements)

def statementLayouts : List Statement → List Layout
  | [] => []
  | statement :: rest => statement.layout :: statementLayouts rest

def caseLayouts : List Case → List Layout
  | [] => []
  | case :: rest => case.layout :: caseLayouts rest

end

def Expression.render (expression : Expression) : Text := expression.layout.text

def Statement.render (statement : Statement) : Text := statement.layout.text

def Block.render (block : Block) : Text := block.layout.text

/-! ## Recognised trees -/

mutual

def Expression.isRecognised : Expression → Bool
  | .literal _ => true
  | .identifier _ _ => true
  | .functionCall _ arguments _ => areRecognisedExpressions arguments
  | .unrecognised _ => false

def areRecognisedExpressions : List Expression → Bool
  | [] => true
  | expression :: rest => expression.isRecognised && areRecognisedExpressions rest

end

mutual

/-- Whether every node of a statement is recognised, inline assembly included. -/
def Statement.isRecognised : Statement → Bool
  | .expression expression => expression.isRecognised
  | .variableDeclaration _ none _ => true
  | .variableDeclaration _ (some value) _ => value.isRecognised
  | .assignment _ value _ => value.isRecognised
  | .functionDefinition _ _ _ body _ => body.isRecognised
  | .case case => case.isRecognised
  | .switch expression cases _ => expression.isRecognised && areRecognisedCases cases
  | .ifThen condition body _ => condition.isRecognised && body.isRecognised
  | .forLoop pre condition post body _ =>
      pre.isRecognised && condition.isRecognised && post.isRecognised && body.isRecognised
  | .breakLoop _ => true
  | .continueLoop _ => true
  | .block block => block.isRecognised
  | .inlineAssembly operations _ => operations.isRecognised
  | .unrecognised _ => false

def Case.isRecognised : Case → Bool
  | .mk none body _ => body.isRecognised
  | .mk (some value) body _ => value.isRecognised && body.isRecognised
  | .other statement => statement.isRecognised

def Block.isRecognised : Block → Bool
  | .mk statements _ _ => areRecognised statements

def areRecognised : List Statement → Bool
  | [] => true
  | statement :: rest => statement.isRecognised && areRecognised rest

def areRecognisedCases : List Case → Bool
  | [] => true
  | case :: rest => case.isRecognised && areRecognisedCases rest

end

/-! ## Printing -/

def Expression.print? (expression : Expression) : Option Text :=
  if expression.isRecognised then some expression.render else none

def Statement.print? (statement : Statement) : Option Text :=
  if statement.isRecognised then some statement.render else none

/-- The text of a block in which every node is recognised. -/
def Block.print? (block : Block) : Option Text :=
  if block.isRecognised then some block.render else none

end ContractAsm.Ir

import ContractAsm.Proofs.Asm.Translation

/-!
# Assembly taken into the IR

Inline assembly stands in the IR as it came from the source. When each such statement is
replaced by the block that its operations are translated to, the text of the whole does not
change, so this is the tree that the text can be read as.
-/

namespace ContractAsm.Ir

mutual

/-- A statement with the translated block in place of every piece of inline assembly. -/
def Statement.inlined : Statement → Statement
  | .expression expression => .expression expression
  | .variableDeclaration names value location => .variableDeclaration names value location
  | .assignment names value location => .assignment names value location
  | .functionDefinition name parameters results body location =>
      .functionDefinition name parameters results body.inlined location
  | .case case => .case case.inlined
  | .switch expression cases location => .switch expression (casesInlined cases) location
  | .ifThen condition body location => .ifThen condition body.inlined location
  | .forLoop pre condition post body location =>
      .forLoop pre.inlined condition post.inlined body.inlined location
  | .breakLoop location => .breakLoop location
  | .continueLoop location => .continueLoop location
  | .block block => .block block.inlined
  | .inlineAssembly operations _ => .block operations.toIr
  | .unrecognised node => .unrecognised node

def Case.inlined : Case → Case
  | .mk value body location => .mk value body.inlined location
  | .other statement => .other statement.inlined

def Block.inlined : Block → Block
  | .mk statements location kind => .mk (statementsInlined statements) location kind

def statementsInlined : List Statement → List Statement
  | [] => []
  | statement :: rest => statement.inlined :: statementsInlined rest

def casesInlined : List Case → List Case
  | [] => []
  | case :: rest => case.inlined :: casesInlined rest

end

/-! ## The text stays -/

mutual

theorem Statement.layout_inlined (statement : Statement) : statement.inlined.layout = statement.layout := by
  cases statement with
  | functionDefinition name parameters results body location =>
    rw [Statement.inlined, Statement.layout, Statement.layout, Block.layout_inlined body]
  | case case => exact Case.layout_inlined case
  | switch expression cases location =>
    rw [Statement.inlined, Statement.layout, Statement.layout, layouts_casesInlined]
  | ifThen condition body location =>
    rw [Statement.inlined, Statement.layout, Statement.layout, Block.layout_inlined body]
  | forLoop pre condition post body location =>
    rw [Statement.inlined, Statement.layout, Statement.layout, Block.layout_inlined pre,
      Block.layout_inlined post, Block.layout_inlined body]
  | block block => exact Block.layout_inlined block
  | inlineAssembly operations location => exact operations.layout_toIr
  | expression | variableDeclaration | assignment | breakLoop | continueLoop | unrecognised => rfl

theorem Case.layout_inlined (case : Case) : case.inlined.layout = case.layout := by
  match case with
  | .mk value body location => rw [Case.inlined, Case.layout, Case.layout, Block.layout_inlined body]
  | .other statement => exact Statement.layout_inlined statement

theorem Block.layout_inlined (block : Block) : block.inlined.layout = block.layout := by
  match block with
  | .mk statements _ _ => rw [Block.inlined, Block.layout, Block.layout, layouts_statementsInlined]

theorem layouts_statementsInlined (statements : List Statement) :
    statementLayouts (statementsInlined statements) = statementLayouts statements := by
  match statements with
  | [] => rfl
  | statement :: rest =>
    rw [statementsInlined, statementLayouts, statementLayouts, Statement.layout_inlined,
      layouts_statementsInlined]

theorem layouts_casesInlined (cases : List Case) :
    caseLayouts (casesInlined cases) = caseLayouts cases := by
  match cases with
  | [] => rfl
  | case :: rest =>
    rw [casesInlined, caseLayouts, caseLayouts, Case.layout_inlined, layouts_casesInlined]

end

mutual

theorem Statement.isRecognised_inlined (statement : Statement) :
    statement.inlined.isRecognised = statement.isRecognised := by
  cases statement with
  | functionDefinition name parameters results body location => exact Block.isRecognised_inlined body
  | case case => exact Case.isRecognised_inlined case
  | switch expression cases location =>
    rw [Statement.inlined, Statement.isRecognised, Statement.isRecognised, areRecognised_casesInlined]
  | ifThen condition body location =>
    rw [Statement.inlined, Statement.isRecognised, Statement.isRecognised, Block.isRecognised_inlined body]
  | forLoop pre condition post body location =>
    rw [Statement.inlined, Statement.isRecognised, Statement.isRecognised, Block.isRecognised_inlined pre,
      Block.isRecognised_inlined post, Block.isRecognised_inlined body]
  | block block => exact Block.isRecognised_inlined block
  | inlineAssembly operations location => exact operations.isRecognised_toIr
  | expression | variableDeclaration | assignment | breakLoop | continueLoop | unrecognised => rfl

theorem Case.isRecognised_inlined (case : Case) : case.inlined.isRecognised = case.isRecognised := by
  match case with
  | .mk none body location => exact Block.isRecognised_inlined body
  | .mk (some value) body location =>
    rw [Case.inlined, Case.isRecognised, Case.isRecognised, Block.isRecognised_inlined body]
  | .other statement => exact Statement.isRecognised_inlined statement

theorem Block.isRecognised_inlined (block : Block) : block.inlined.isRecognised = block.isRecognised := by
  match block with
  | .mk statements _ _ => exact areRecognised_statementsInlined statements

theorem areRecognised_statementsInlined (statements : List Statement) :
    areRecognised (statementsInlined statements) = areRecognised statements := by
  match statements with
  | [] => rfl
  | statement :: rest =>
    rw [statementsInlined, areRecognised, areRecognised, Statement.isRecognised_inlined,
      areRecognised_statementsInlined]

theorem areRecognised_casesInlined (cases : List Case) :
    areRecognisedCases (casesInlined cases) = areRecognisedCases cases := by
  match cases with
  | [] => rfl
  | case :: rest =>
    rw [casesInlined, areRecognisedCases, areRecognisedCases, Case.isRecognised_inlined,
      areRecognised_casesInlined]

end

theorem Block.print?_inlined (block : Block) : block.inlined.print? = block.print? := by
  rw [Block.print?, Block.print?, Block.isRecognised_inlined, Block.render, Block.render,
    Block.layout_inlined]

end ContractAsm.Ir

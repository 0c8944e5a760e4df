import ContractAsm.Asm.Document
import ContractAsm.Ir.Basic

/-!
# The IR as documents

Every node is an object whose `kind` member tells what it is. Reading keeps a node of
another kind as it came, and fails only where a recognised node lacks a member.
-/

namespace ContractAsm.Ir

open Asm (nodeDocument blockDocument textsDocument typedNamesDocument locationOf?)

/-! ## Writing -/

mutual

def Expression.toJson : Expression → Json
  | .literal literal => literal.toJson
  | .identifier name location => nodeDocument "identifier" [("name", some (.string name))] location
  | .functionCall name arguments location =>
      nodeDocument "functionCall"
        [("functionName", some (.string name)),
          ("arguments", some (.array (expressionDocuments arguments)))] location
  | .unrecognised node => node

def expressionDocuments : List Expression → List Json
  | [] => []
  | expression :: rest => expression.toJson :: expressionDocuments rest

end

mutual

def Statement.toJson : Statement → Json
  | .expression expression => expression.toJson
  | .variableDeclaration names value location =>
      nodeDocument "variableDeclaration"
        [("variables", some (typedNamesDocument names)), ("value", value.map Expression.toJson)]
        location
  | .assignment names value location =>
      nodeDocument "assignment"
        [("variableNames", some (textsDocument names)), ("value", some value.toJson)] location
  | .functionDefinition name parameters results body location =>
      nodeDocument "functionDefinition"
        [("name", some (.string name)), ("parameters", some (typedNamesDocument parameters)),
          ("returnVariables", some (typedNamesDocument results)), ("body", some body.toJson)]
        location
  | .case case => case.toJson
  | .switch expression cases location =>
      nodeDocument "switch"
        [("expression", some expression.toJson), ("cases", some (.array (caseDocuments cases)))]
        location
  | .ifThen condition body location =>
      nodeDocument "if" [("condition", some condition.toJson), ("body", some body.toJson)] location
  | .forLoop pre condition post body location =>
      nodeDocument "forLoop"
        [("pre", some pre.toJson), ("condition", some condition.toJson),
          ("post", some post.toJson), ("body", some body.toJson)] location
  | .breakLoop location => nodeDocument "break" [] location
  | .continueLoop location => nodeDocument "continue" [] location
  | .block block => block.toJson
  | .inlineAssembly operations location =>
      nodeDocument "inlineAssembly" [("operations", some operations.toJson)] location
  | .unrecognised node => node

def Case.toJson : Case → Json
  | .mk value body location =>
      nodeDocument "case"
        [("value", some ((value.map Expression.toJson).getD .null)), ("body", some body.toJson)]
        location
  | .other statement => statement.toJson

def Block.toJson : Block → Json
  | .mk statements location kind => blockDocument kind (statementDocuments statements) location

def statementDocuments : List Statement → List Json
  | [] => []
  | statement :: rest => statement.toJson :: statementDocuments rest

def caseDocuments : List Case → List Json
  | [] => []
  | case :: rest => case.toJson :: caseDocuments rest

end

/-! Lists are written element by element, and what stands as a statement by itself is written as
it is. -/

theorem expressionDocuments_eq (expressions : List Expression) :
    expressionDocuments expressions = expressions.map Expression.toJson := by
  induction expressions with
  | nil => rfl
  | cons expression rest ih => rw [expressionDocuments, ih, List.map_cons]

theorem statementDocuments_eq (statements : List Statement) :
    statementDocuments statements = statements.map Statement.toJson := by
  induction statements with
  | nil => rfl
  | cons statement rest ih => rw [statementDocuments, ih, List.map_cons]

theorem caseDocuments_eq (cases : List Case) : caseDocuments cases = cases.map Case.toJson := by
  induction cases with
  | nil => rfl
  | cons case rest ih => rw [caseDocuments, ih, List.map_cons]

theorem Statement.toJson_expression (expression : Expression) :
    (Statement.expression expression).toJson = expression.toJson := by rw [Statement.toJson]

theorem Statement.toJson_block (block : Block) : (Statement.block block).toJson = block.toJson := by
  rw [Statement.toJson]

/-! ## Reading -/

mutual

def Expression.ofJson? (document : Json) : Option Expression :=
  match document.kind? with
  | some "literal" => (Literal.ofJson? document).map .literal
  | some "identifier" => do
      return .identifier (← document.textAt? "name") (← locationOf? document)
  | some "functionCall" => do
      let ⟨arguments, _⟩ ← document.items? "arguments"
      return .functionCall (← document.textAt? "functionName")
        (← expressionsOfJson? arguments) (← locationOf? document)
  | _ => some (.unrecognised document)
termination_by sizeOf document

def expressionsOfJson? (documents : List Json) : Option (List Expression) :=
  match documents with
  | [] => some []
  | document :: rest => do return (← Expression.ofJson? document) :: (← expressionsOfJson? rest)
termination_by sizeOf documents

end

/-- What a statement is among the cases of a switch. -/
def Case.ofStatement : Statement → Case
  | .case case => case
  | statement => .other statement

/-- The value of a case, which is null for the default. -/
def caseValueOf? : Json → Option (Option Expression)
  | .null => some none
  | document => (Expression.ofJson? document).map some

mutual

def Statement.ofJson? (document : Json) : Option Statement :=
  match document.kind? with
  | some "variableDeclaration" => do
      return .variableDeclaration (← document.listAt? "variables" TypedName.ofJson?)
        (← document.optionalAt? "value" Expression.ofJson?) (← locationOf? document)
  | some "assignment" => do
      return .assignment (← document.listAt? "variableNames" Json.text?)
        (← Expression.ofJson? (← document.member? "value")) (← locationOf? document)
  | some "functionDefinition" => do
      let ⟨body, _⟩ ← document.child? "body"
      return .functionDefinition (← document.textAt? "name")
        (← document.listAt? "parameters" TypedName.ofJson?)
        (← document.listAt? "returnVariables" TypedName.ofJson?)
        (← Block.ofJson? body) (← locationOf? document)
  | some "case" => do
      let ⟨body, _⟩ ← document.child? "body"
      return .case (.mk (← caseValueOf? (← document.member? "value")) (← Block.ofJson? body)
        (← locationOf? document))
  | some "switch" => do
      let ⟨cases, _⟩ ← document.items? "cases"
      return .switch (← Expression.ofJson? (← document.member? "expression"))
        (← casesOfJson? cases) (← locationOf? document)
  | some "if" => do
      let ⟨body, _⟩ ← document.child? "body"
      return .ifThen (← Expression.ofJson? (← document.member? "condition"))
        (← Block.ofJson? body) (← locationOf? document)
  | some "forLoop" => do
      let ⟨pre, _⟩ ← document.child? "pre"
      let ⟨post, _⟩ ← document.child? "post"
      let ⟨body, _⟩ ← document.child? "body"
      return .forLoop (← Block.ofJson? pre) (← Expression.ofJson? (← document.member? "condition"))
        (← Block.ofJson? post) (← Block.ofJson? body) (← locationOf? document)
  | some "break" => (locationOf? document).map .breakLoop
  | some "continue" => (locationOf? document).map .continueLoop
  | some "block" => do
      let ⟨statements, _⟩ ← document.items? "statements"
      return .block (.mk (← statementsOfJson? statements) (← locationOf? document)
        (document.member? "kind"))
  | some "inlineAssembly" => do
      return .inlineAssembly (← Asm.Block.ofJson? (← document.member? "operations"))
        (← locationOf? document)
  | _ => do
      match ← Expression.ofJson? document with
      | .unrecognised node => return .unrecognised node
      | expression => return .expression expression
termination_by sizeOf document

/-- A block stands where only a block can, so its kind is not looked at. -/
def Block.ofJson? (document : Json) : Option Block := do
  let ⟨statements, _⟩ ← document.items? "statements"
  return .mk (← statementsOfJson? statements) (← locationOf? document) (document.member? "kind")
termination_by sizeOf document

def statementsOfJson? (documents : List Json) : Option (List Statement) :=
  match documents with
  | [] => some []
  | document :: rest => do return (← Statement.ofJson? document) :: (← statementsOfJson? rest)
termination_by sizeOf documents

def casesOfJson? (documents : List Json) : Option (List Case) :=
  match documents with
  | [] => some []
  | document :: rest => do
      return Case.ofStatement (← Statement.ofJson? document) :: (← casesOfJson? rest)
termination_by sizeOf documents

end

end ContractAsm.Ir

import ContractAsm.Asm.Basic

/-!
# Inline assembly as documents

Every node is an object whose `kind` member tells what it is. Reading keeps a node of
another kind as it came, and fails only where a recognised node lacks a member.
-/

namespace ContractAsm.Asm

/-! ## Writing -/

def locationMember (location : Option Location) : Text × Option Json :=
  ("location", location.map Location.toJson)

def nodeDocument (kind : Text) (members : List (Text × Option Json)) (location : Option Location) :
    Json :=
  .ofPresent (("kind", some (.string kind)) :: (members ++ [locationMember location]))

def textsDocument (texts : List Text) : Json := .array (texts.map .string)

def typedNamesDocument (names : List TypedName) : Json := .array (names.map TypedName.toJson)

def blockDocument (kind : Option Json) (statements : List Json) (location : Option Location) : Json :=
  .ofPresent [("kind", kind), ("statements", some (.array statements)), locationMember location]

mutual

def Expression.toJson : Expression → Json
  | .literal literal => literal.toJson
  | .identifier name location => nodeDocument "identifier" [("name", some (.string name))] location
  | .functionalInstruction instruction arguments location =>
      nodeDocument "functionalInstruction"
        [("instruction", some (.string instruction)),
          ("arguments", some (.array (expressionDocuments arguments)))] location
  | .functionCall name arguments location =>
      nodeDocument "functionCall"
        [("functionName", some (.string name)),
          ("arguments", some (.array (expressionDocuments arguments)))] location
  | .unrecognised node => node

def expressionDocuments : List Expression → List Json
  | [] => []
  | expression :: rest => expression.toJson :: expressionDocuments rest

end

mutual

def Statement.toJson : Statement → Json
  | .expression expression => expression.toJson
  | .assignment names value location =>
      nodeDocument "assignment"
        [("variableNames", some (textsDocument names)), ("value", some value.toJson)] location
  | .variableDeclaration names value location =>
      nodeDocument "variableDeclaration"
        [("variables", some (typedNamesDocument names)), ("value", value.map Expression.toJson)]
        location
  | .functionDefinition name parameters results body location =>
      nodeDocument "functionDefinition"
        [("name", some (.string name)), ("parameters", some (typedNamesDocument parameters)),
          ("returnVariables", some (typedNamesDocument results)), ("body", some body.toJson)]
        location
  | .ifThen condition body location =>
      nodeDocument "if" [("condition", some condition.toJson), ("body", some body.toJson)] location
  | .switch expression cases location =>
      nodeDocument "switch"
        [("expression", some expression.toJson), ("cases", some (.array (caseDocuments cases)))]
        location
  | .forLoop pre condition post body location =>
      nodeDocument "forLoop"
        [("pre", some pre.toJson), ("condition", some condition.toJson),
          ("post", some post.toJson), ("body", some body.toJson)] location
  | .block block => block.toJson
  | .legacy form operand location =>
      nodeDocument form.kind [(form.operandMember, some (.string operand))] location
  | .unrecognised node => node

def Case.toJson : Case → Json
  | .mk value body =>
      .object [("value", (value.map Expression.toJson).getD .null), ("body", body.toJson)]

def Block.toJson : Block → Json
  | .mk statements location kind => blockDocument kind (statementDocuments statements) location

def statementDocuments : List Statement → List Json
  | [] => []
  | statement :: rest => statement.toJson :: statementDocuments rest

def caseDocuments : List Case → List Json
  | [] => []
  | case :: rest => case.toJson :: caseDocuments rest

end

/-! ## Reading -/

def locationOf? (document : Json) : Option (Option Location) :=
  document.optionalAt? "location" Location.ofJson?

mutual

def Expression.ofJson? (document : Json) : Option Expression :=
  match document.kind? with
  | some "literal" => (Literal.ofJson? document).map .literal
  | some "identifier" => do
      return .identifier (← document.textAt? "name") (← locationOf? document)
  | some "functionalInstruction" => do
      let ⟨arguments, _⟩ ← document.items? "arguments"
      return .functionalInstruction (← document.textAt? "instruction")
        (← expressionsOfJson? arguments) (← locationOf? document)
  | some "functionCall" => do
      let ⟨arguments, _⟩ ← document.items? "arguments"
      return .functionCall (← document.textAt? "functionName")
        (← expressionsOfJson? arguments) (← locationOf? document)
  | _ => some (.unrecognised document)
termination_by sizeOf document

def expressionsOfJson? (documents : List Json) : Option (List Expression) :=
  match documents with
  | [] => some []
  | document :: rest => do return (← Expression.ofJson? document) :: (← expressionsOfJson? rest)
termination_by sizeOf documents

end

/-- The value of a case, which is null for the default. -/
def caseValueOf? : Json → Option (Option Expression)
  | .null => some none
  | document => (Expression.ofJson? document).map some

mutual

def Statement.ofJson? (document : Json) : Option Statement :=
  match document.kind? with
  | some "assignment" => do
      return .assignment (← document.listAt? "variableNames" Json.text?)
        (← Expression.ofJson? (← document.member? "value")) (← locationOf? document)
  | some "variableDeclaration" => do
      return .variableDeclaration (← document.listAt? "variables" TypedName.ofJson?)
        (← document.optionalAt? "value" Expression.ofJson?) (← locationOf? document)
  | some "functionDefinition" => do
      let ⟨body, _⟩ ← document.child? "body"
      return .functionDefinition (← document.textAt? "name")
        (← document.listAt? "parameters" TypedName.ofJson?)
        (← document.listAt? "returnVariables" TypedName.ofJson?)
        (← Block.ofJson? body) (← locationOf? document)
  | some "if" => do
      let ⟨body, _⟩ ← document.child? "body"
      return .ifThen (← Expression.ofJson? (← document.member? "condition"))
        (← Block.ofJson? body) (← locationOf? document)
  | some "switch" => do
      let ⟨cases, _⟩ ← document.items? "cases"
      return .switch (← Expression.ofJson? (← document.member? "expression"))
        (← casesOfJson? cases) (← locationOf? document)
  | some "forLoop" => do
      let ⟨pre, _⟩ ← document.child? "pre"
      let ⟨post, _⟩ ← document.child? "post"
      let ⟨body, _⟩ ← document.child? "body"
      return .forLoop (← Block.ofJson? pre) (← Expression.ofJson? (← document.member? "condition"))
        (← Block.ofJson? post) (← Block.ofJson? body) (← locationOf? document)
  | some "block" => do
      let ⟨statements, _⟩ ← document.items? "statements"
      return .block (.mk (← statementsOfJson? statements) (← locationOf? document)
        (document.member? "kind"))
  | some "label" => do
      return .legacy .label (← document.textAt? "name") (← locationOf? document)
  | some "stackAssignment" => do
      return .legacy .stackAssignment (← document.textAt? "variableName") (← locationOf? document)
  | some "instruction" => do
      return .legacy .instruction (← document.textAt? "instruction") (← locationOf? document)
  | _ => do
      match ← Expression.ofJson? document with
      | .unrecognised node => return .unrecognised node
      | expression => return .expression expression
termination_by sizeOf document

def Case.ofJson? (document : Json) : Option Case := do
  let ⟨body, _⟩ ← document.child? "body"
  return .mk (← caseValueOf? (← document.member? "value")) (← Block.ofJson? body)
termination_by sizeOf document

/-- A block stands where only a block can, so its kind is not looked at. -/
def Block.ofJson? (document : Json) : Option Block := do
  let ⟨statements, _⟩ ← document.items? "statements"
  return .mk (← statementsOfJson? statements) (← locationOf? document) (document.member? "kind")
termination_by sizeOf document

def statementsOfJson? (documents : List Json) : Option (List Statement) :=
  match documents with
  | [] => some []
  | document :: rest => do return (← Statement.ofJson? document) :: (← statementsOfJson? rest)
termination_by sizeOf documents

def casesOfJson? (documents : List Json) : Option (List Case) :=
  match documents with
  | [] => some []
  | document :: rest => do return (← Case.ofJson? document) :: (← casesOfJson? rest)
termination_by sizeOf documents

end

end ContractAsm.Asm

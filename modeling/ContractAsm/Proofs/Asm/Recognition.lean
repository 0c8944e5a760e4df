import ContractAsm.Asm.Document
import ContractAsm.Asm.Printer
import ContractAsm.Proofs.Schema.Decoding

/-!
# Recognised assembly

Reading an assembly block keeps a node of unknown kind as it came. A block that fits its
schema has no such node, however deep, and the value of every case in it is a literal. So it
can be printed.
-/

namespace ContractAsm.Asm

open Schema

/-! ## Trees without unknown nodes -/

mutual

def Expression.Recognised : Expression → Prop
  | .literal _ => True
  | .identifier _ _ => True
  | .functionalInstruction _ arguments _ => ExpressionsRecognised arguments
  | .functionCall _ arguments _ => ExpressionsRecognised arguments
  | .unrecognised _ => False

def ExpressionsRecognised : List Expression → Prop
  | [] => True
  | expression :: rest => expression.Recognised ∧ ExpressionsRecognised rest

end

/-- The value of a case is a literal; the default has none. -/
def CaseValueRecognised : Option Expression → Prop
  | none => True
  | some (.literal _) => True
  | some _ => False

mutual

def Statement.Recognised : Statement → Prop
  | .expression expression => expression.Recognised
  | .assignment _ value _ => value.Recognised
  | .variableDeclaration _ value _ => ∀ initial ∈ value, initial.Recognised
  | .functionDefinition _ _ _ body _ => body.Recognised
  | .ifThen condition body _ => condition.Recognised ∧ body.Recognised
  | .switch expression cases _ => expression.Recognised ∧ CasesRecognised cases
  | .forLoop pre condition post body _ =>
      pre.Recognised ∧ condition.Recognised ∧ post.Recognised ∧ body.Recognised
  | .block block => block.Recognised
  | .legacy _ _ _ => True
  | .unrecognised _ => False

def Case.Recognised : Case → Prop
  | .mk value body => CaseValueRecognised value ∧ body.Recognised

def Block.Recognised : Block → Prop
  | .mk statements _ _ => StatementsRecognised statements

def StatementsRecognised : List Statement → Prop
  | [] => True
  | statement :: rest => statement.Recognised ∧ StatementsRecognised rest

def CasesRecognised : List Case → Prop
  | [] => True
  | case :: rest => case.Recognised ∧ CasesRecognised rest

end

/-! ## Printing -/

mutual

theorem Expression.Recognised.isRecognised {expression : Expression} (recognised : expression.Recognised) :
    expression.isRecognised = true := by
  match expression with
  | .literal _ | .identifier _ _ => rfl
  | .functionalInstruction _ _ _ | .functionCall _ _ _ => exact expressionsRecognised_isRecognised recognised

theorem expressionsRecognised_isRecognised {expressions : List Expression}
    (recognised : ExpressionsRecognised expressions) : areRecognisedExpressions expressions = true := by
  match expressions with
  | [] => rfl
  | expression :: rest =>
    rw [areRecognisedExpressions, Expression.Recognised.isRecognised recognised.1,
      expressionsRecognised_isRecognised recognised.2]
    rfl

end

mutual

theorem Statement.Recognised.isRecognised {statement : Statement} (recognised : statement.Recognised) :
    statement.isRecognised = true := by
  cases statement with
  | expression => exact Expression.Recognised.isRecognised recognised
  | assignment => exact Expression.Recognised.isRecognised recognised
  | variableDeclaration _ value =>
    cases value with
    | none => rfl
    | some value => exact (recognised value rfl).isRecognised
  | functionDefinition _ _ _ body => exact @Block.Recognised.isRecognised body recognised
  | ifThen condition body =>
    rw [Statement.isRecognised, recognised.1.isRecognised, @Block.Recognised.isRecognised body recognised.2]
    rfl
  | «switch» expression cases =>
    rw [Statement.isRecognised, recognised.1.isRecognised, casesRecognised_isRecognised recognised.2]
    rfl
  | forLoop pre condition post body =>
    obtain ⟨before, tested, after, inside⟩ := recognised
    rw [Statement.isRecognised, before.isRecognised, tested.isRecognised, after.isRecognised,
      inside.isRecognised]
    rfl
  | block block => exact @Block.Recognised.isRecognised block recognised
  | legacy => rfl
  | unrecognised => contradiction

theorem Block.Recognised.isRecognised {block : Block} (recognised : block.Recognised) :
    block.isRecognised = true := by
  cases block with
  | mk statements => exact statementsRecognised_isRecognised recognised

theorem statementsRecognised_isRecognised {statements : List Statement}
    (recognised : StatementsRecognised statements) : areRecognised statements = true := by
  cases statements with
  | nil => rfl
  | cons statement rest =>
    rw [areRecognised, recognised.1.isRecognised, statementsRecognised_isRecognised recognised.2]
    rfl

theorem casesRecognised_isRecognised {cases : List Case} (recognised : CasesRecognised cases) :
    areRecognisedCases cases = true := by
  match cases with
  | [] => rfl
  | .mk none body :: _ =>
    obtain ⟨⟨-, inside⟩, others⟩ := recognised
    rw [areRecognisedCases, Case.isRecognised, inside.isRecognised, casesRecognised_isRecognised others]
    rfl
  | .mk (some (.literal _)) body :: _ =>
    obtain ⟨⟨-, inside⟩, others⟩ := recognised
    rw [areRecognisedCases, Case.isRecognised, inside.isRecognised, casesRecognised_isRecognised others]
    rfl

end

/-! ## Expressions that fit -/

theorem Fits.expression {value : Option Json} (fits : Fits (.node .asmExpression) value) :
    Fits (.node .asmLiteral) value ∨ Fits (.node .asmIdentifier) value
      ∨ Fits (.node .asmFunctionalInstruction) value ∨ Fits (.node .asmFunctionCall) value := by
  obtain ⟨option, listed, inside⟩ := fits.node.union
  simp only [List.mem_cons, List.not_mem_nil, or_false] at listed
  rcases listed with rfl | rfl | rfl | rfl
  · exact .inl inside
  · exact .inr (.inl inside)
  · exact .inr (.inr (.inl inside))
  · exact .inr (.inr (.inr inside))

theorem present_expression {value : Option Json} (fits : Fits (.node .asmExpression) value) :
    ∃ document, value = some document := by
  rcases Fits.expression fits with inside | inside | inside | inside
  all_goals exact inside.present rfl

mutual

theorem decodes_expression {document : Json} (fits : Fits (.node .asmExpression) (some document)) :
    Decodes (Expression.ofJson? document) Expression.Recognised := by
  rcases Fits.expression fits with inside | inside | inside | inside
  · have members := inside.members rfl
    rw [Expression.ofJson?, members.1.kind]
    exact (decodes_literal inside).map fun _ _ => trivial
  · obtain ⟨kind, name, location, -⟩ := inside.members rfl
    rw [Expression.ofJson?, kind.kind]
    refine (decodes_text name).bind fun _ _ => ?_
    exact (decodes_maybeLocation location).bind fun _ _ => .pure trivial
  · obtain ⟨kind, name, arguments, location, -⟩ := inside.members rfl
    rw [Expression.ofJson?, kind.kind]
    refine (decodes_items arguments).bind fun ⟨elements, smaller⟩ each => ?_
    refine (decodes_text name).bind fun _ _ => (decodes_expressions each).bind fun _ recognised => ?_
    exact (decodes_maybeLocation location).bind fun _ _ => .pure recognised
  · obtain ⟨kind, name, arguments, location, -⟩ := inside.members rfl
    rw [Expression.ofJson?, kind.kind]
    refine (decodes_items arguments).bind fun ⟨elements, smaller⟩ each => ?_
    refine (decodes_text name).bind fun _ _ => (decodes_expressions each).bind fun _ recognised => ?_
    exact (decodes_maybeLocation location).bind fun _ _ => .pure recognised
termination_by sizeOf document

theorem decodes_expressions {documents : List Json}
    (each : ∀ document ∈ documents, Fits (.node .asmExpression) (some document)) :
    Decodes (expressionsOfJson? documents) ExpressionsRecognised := by
  cases documents with
  | nil =>
    rw [expressionsOfJson?]
    exact .pure trivial
  | cons document rest =>
    rw [expressionsOfJson?]
    have first := decodes_expression (each document List.mem_cons_self)
    have others := decodes_expressions fun other mem => each other (List.mem_cons_of_mem _ mem)
    exact first.cons others fun _ _ held more => ⟨held, more⟩
termination_by sizeOf documents

end

/-! ## Statements that fit -/

theorem caseValueOf?_literal {document : Json} (fits : Fits (.node .asmLiteral) (some document)) :
    caseValueOf? document = (Literal.ofJson? document).map fun literal => some (.literal literal) := by
  have members := fits.members rfl
  have read : caseValueOf? document = (Expression.ofJson? document).map some := by
    cases document with
    | null => cases members.1.literal
    | _ => rfl
  rw [read, Expression.ofJson?, members.1.kind]
  exact Option.map_map _ _ _

theorem decodes_caseValue {document : Json} (fits : Fits (.nullable (.node .asmLiteral)) (some document)) :
    Decodes (caseValueOf? document) CaseValueRecognised := by
  rcases fits.nullable with missing | inside
  · cases missing
    exact .pure trivial
  · rw [caseValueOf?_literal inside]
    exact (decodes_literal inside).map fun _ _ => trivial

theorem present_caseValue {value : Option Json} (fits : Fits (.nullable (.node .asmLiteral)) value) :
    ∃ document, value = some document := by
  rcases fits.nullable with missing | inside
  · exact ⟨_, missing⟩
  · exact inside.present rfl

/-- What stands as a statement and is of none of the kinds of statements is an expression. -/
theorem ofJson?_expression {document : Json} (fits : Fits (.node .asmExpression) (some document)) :
    Statement.ofJson? document = (do
      match ← Expression.ofJson? document with
      | .unrecognised kept => return .unrecognised kept
      | expression => return .expression expression) := by
  rcases Fits.expression fits with inside | inside | inside | inside
  all_goals
    rw [Statement.ofJson?, (inside.members rfl).1.kind]
    rfl

theorem decodes_expressionStatement {document : Json} (fits : Fits (.node .asmExpression) (some document)) :
    Decodes (Statement.ofJson? document) Statement.Recognised := by
  rw [ofJson?_expression fits]
  refine (decodes_expression fits).bind fun expression recognised => ?_
  cases expression with
  | unrecognised => contradiction
  | _ => exact .pure recognised

theorem decodes_assignment {document : Json} (fits : Fits (.node .asmAssignment) (some document)) :
    Decodes (Statement.ofJson? document) Statement.Recognised := by
  obtain ⟨kind, names, value, location, -⟩ := fits.members rfl
  rw [Statement.ofJson?, kind.kind]
  refine (decodes_list names fun _ each => decodes_textElement each).bind fun _ _ => ?_
  refine (decodes_member value (present_expression value)).bind fun _ inside => ?_
  refine (decodes_expression inside).bind fun _ recognised => ?_
  exact (decodes_maybeLocation location).bind fun _ _ => .pure recognised

theorem decodes_variableDeclaration {document : Json}
    (fits : Fits (.node .asmVariableDeclaration) (some document)) :
    Decodes (Statement.ofJson? document) Statement.Recognised := by
  obtain ⟨kind, names, value, location, -⟩ := fits.members rfl
  rw [Statement.ofJson?, kind.kind]
  refine (decodes_list names fun _ each => decodes_declared each).bind fun _ _ => ?_
  refine (decodes_optional value fun _ each => decodes_expression each).bind fun _ recognised => ?_
  exact (decodes_maybeLocation location).bind fun _ _ => .pure recognised

theorem ofJson?_legacy {document : Json} (form : LegacyForm)
    (kind : Fits (.literal form.kind) (document.member? "kind")) :
    Statement.ofJson? document = (do
      return .legacy form (← document.textAt? form.operandMember) (← locationOf? document)) := by
  cases form
  all_goals
    rw [Statement.ofJson?, kind.kind]
    rfl

theorem decodes_legacy {document : Json} (form : LegacyForm)
    (kind : Fits (.literal form.kind) (document.member? "kind"))
    (operand : Fits .text (document.member? form.operandMember))
    (location : Fits NodeType.maybeLocation (document.member? "location")) :
    Decodes (Statement.ofJson? document) Statement.Recognised := by
  rw [ofJson?_legacy form kind]
  refine (decodes_text operand).bind fun _ _ => ?_
  exact (decodes_maybeLocation location).bind fun _ _ => .pure trivial

mutual

theorem decodes_statement {document : Json} (fits : Fits (.node .asmStatement) (some document)) :
    Decodes (Statement.ofJson? document) Statement.Recognised := by
  obtain ⟨option, listed, inside⟩ := fits.node.union
  simp only [List.mem_cons, List.not_mem_nil, or_false] at listed
  rcases listed with rfl | rfl | rfl | rfl | rfl | rfl | rfl | rfl | rfl | rfl | rfl
  · exact decodes_expressionStatement inside
  · exact decodes_assignment inside
  · exact decodes_variableDeclaration inside
  · obtain ⟨kind, name, parameters, results, body, location, -⟩ := inside.members rfl
    rw [Statement.ofJson?, kind.kind]
    refine (decodes_child body (body.present rfl)).bind fun ⟨block, smaller⟩ fits => ?_
    refine (decodes_text name).bind fun _ _ => ?_
    refine (decodes_list parameters fun _ each => decodes_declared each).bind fun _ _ => ?_
    refine (decodes_list results fun _ each => decodes_declared each).bind fun _ _ => ?_
    refine (decodes_block fits).bind fun _ recognised => ?_
    exact (decodes_maybeLocation location).bind fun _ _ => .pure recognised
  · obtain ⟨kind, condition, body, location, -⟩ := inside.members rfl
    rw [Statement.ofJson?, kind.kind]
    refine (decodes_child body (body.present rfl)).bind fun ⟨block, smaller⟩ fits => ?_
    refine (decodes_member condition (present_expression condition)).bind fun _ fitsCondition => ?_
    refine (decodes_expression fitsCondition).bind fun _ tested => ?_
    refine (decodes_block fits).bind fun _ recognised => ?_
    exact (decodes_maybeLocation location).bind fun _ _ => .pure ⟨tested, recognised⟩
  · obtain ⟨kind, expression, cases, location, -⟩ := inside.members rfl
    rw [Statement.ofJson?, kind.kind]
    refine (decodes_items cases).bind fun ⟨elements, smaller⟩ each => ?_
    refine (decodes_member expression (present_expression expression)).bind fun _ fits => ?_
    refine (decodes_expression fits).bind fun _ tested => ?_
    refine (decodes_cases each).bind fun _ recognised => ?_
    exact (decodes_maybeLocation location).bind fun _ _ => .pure ⟨tested, recognised⟩
  · obtain ⟨kind, pre, condition, post, body, location, -⟩ := inside.members rfl
    rw [Statement.ofJson?, kind.kind]
    refine (decodes_child pre (pre.present rfl)).bind fun ⟨first, firstSmaller⟩ fitsPre => ?_
    refine (decodes_child post (post.present rfl)).bind fun ⟨last, lastSmaller⟩ fitsPost => ?_
    refine (decodes_child body (body.present rfl)).bind fun ⟨block, smaller⟩ fitsBody => ?_
    refine (decodes_block fitsPre).bind fun _ before => ?_
    refine (decodes_member condition (present_expression condition)).bind fun _ fits => ?_
    refine (decodes_expression fits).bind fun _ tested => ?_
    refine (decodes_block fitsPost).bind fun _ after => ?_
    refine (decodes_block fitsBody).bind fun _ recognised => ?_
    exact (decodes_maybeLocation location).bind fun _ _ => .pure ⟨before, tested, after, recognised⟩
  · obtain ⟨kind, statements, location, -⟩ := inside.deferred.members rfl
    rw [Statement.ofJson?, kind.kind]
    refine (decodes_items statements).bind fun ⟨elements, smaller⟩ each => ?_
    refine (decodes_statements each).bind fun _ recognised => ?_
    exact (decodes_maybeLocation location).bind fun _ _ => .pure recognised
  · obtain ⟨kind, operand, location, -⟩ := inside.members rfl
    exact decodes_legacy .label kind operand location
  · obtain ⟨kind, operand, location, -⟩ := inside.members rfl
    exact decodes_legacy .stackAssignment kind operand location
  · obtain ⟨kind, operand, location, -⟩ := inside.members rfl
    exact decodes_legacy .instruction kind operand location
termination_by sizeOf document

theorem decodes_case {document : Json} (fits : Fits (.node .asmCase) (some document)) :
    Decodes (Case.ofJson? document) Case.Recognised := by
  obtain ⟨value, body, -⟩ := fits.members rfl
  rw [Case.ofJson?]
  refine (decodes_child body (body.present rfl)).bind fun ⟨block, smaller⟩ fits => ?_
  refine (decodes_member value (present_caseValue value)).bind fun _ fitsValue => ?_
  refine (decodes_caseValue fitsValue).bind fun _ tested => ?_
  exact (decodes_block fits).bind fun _ recognised => .pure ⟨tested, recognised⟩
termination_by sizeOf document

theorem decodes_block {document : Json} (fits : Fits (.node .asmBlock) (some document)) :
    Decodes (Block.ofJson? document) Block.Recognised := by
  obtain ⟨kind, statements, location, -⟩ := fits.members rfl
  rw [Block.ofJson?]
  refine (decodes_items statements).bind fun ⟨elements, smaller⟩ each => ?_
  refine (decodes_statements each).bind fun _ recognised => ?_
  exact (decodes_maybeLocation location).bind fun _ _ => .pure recognised
termination_by sizeOf document

theorem decodes_statements {documents : List Json}
    (each : ∀ document ∈ documents, Fits (.node .asmStatement) (some document)) :
    Decodes (statementsOfJson? documents) StatementsRecognised := by
  cases documents with
  | nil =>
    rw [statementsOfJson?]
    exact .pure trivial
  | cons document rest =>
    rw [statementsOfJson?]
    have first := decodes_statement (each document List.mem_cons_self)
    have others := decodes_statements fun other mem => each other (List.mem_cons_of_mem _ mem)
    exact first.cons others fun _ _ held more => ⟨held, more⟩
termination_by sizeOf documents

theorem decodes_cases {documents : List Json}
    (each : ∀ document ∈ documents, Fits (.node .asmCase) (some document)) :
    Decodes (casesOfJson? documents) CasesRecognised := by
  cases documents with
  | nil =>
    rw [casesOfJson?]
    exact .pure trivial
  | cons document rest =>
    rw [casesOfJson?]
    have first := decodes_case (each document List.mem_cons_self)
    have others := decodes_cases fun other mem => each other (List.mem_cons_of_mem _ mem)
    exact first.cons others fun _ _ held more => ⟨held, more⟩
termination_by sizeOf documents

end

end ContractAsm.Asm

import ContractAsm.Proofs.Asm.Recognition
import ContractAsm.Proofs.Schema.Restoring

/-!
# Assembly is carried over whole

Reading an assembly block that fits its schema loses nothing: the document of the tree that is
read is the document that was given. The induction is on the size of the document, as reading
is.
-/

namespace ContractAsm.Asm

open Schema

/-! ## Expressions -/

mutual

theorem restores_expression {document : Json} (fits : Fits (.node .asmExpression) (some document)) :
    Decodes (Expression.ofJson? document) fun read => read.toJson = document := by
  rcases Fits.expression fits with inside | inside | inside | inside
  · have members := inside.members rfl
    rw [Expression.ofJson?, members.1.kind]
    refine (restores_literal inside).map fun literal same => ?_
    rw [Expression.toJson, same]
  · obtain ⟨kind, name, location, -⟩ := inside.members rfl
    rw [Expression.ofJson?, kind.kind]
    refine (restores_text name).bind fun name named => ?_
    refine (restores_maybeLocation location).bind fun location placed => .pure ?_
    rw [Expression.toJson]
    exact inside.restoredNode rfl (.cons ⟨rfl, named⟩ .nil) placed
  · obtain ⟨kind, instruction, arguments, location, -⟩ := inside.members rfl
    rw [Expression.ofJson?, kind.kind]
    refine (restores_items arguments).bind fun ⟨elements, smaller⟩ ⟨found, each⟩ => ?_
    refine (restores_text instruction).bind fun instruction named => ?_
    refine (restores_expressions each).bind fun arguments same => ?_
    refine (restores_maybeLocation location).bind fun location placed => .pure ?_
    rw [Expression.toJson, same]
    exact inside.restoredNode rfl (.cons ⟨rfl, named⟩ (.cons ⟨rfl, found⟩ .nil)) placed
  · obtain ⟨kind, name, arguments, location, -⟩ := inside.members rfl
    rw [Expression.ofJson?, kind.kind]
    refine (restores_items arguments).bind fun ⟨elements, smaller⟩ ⟨found, each⟩ => ?_
    refine (restores_text name).bind fun name named => ?_
    refine (restores_expressions each).bind fun arguments same => ?_
    refine (restores_maybeLocation location).bind fun location placed => .pure ?_
    rw [Expression.toJson, same]
    exact inside.restoredNode rfl (.cons ⟨rfl, named⟩ (.cons ⟨rfl, found⟩ .nil)) placed
termination_by sizeOf document

theorem restores_expressions {documents : List Json}
    (each : ∀ document ∈ documents, Fits (.node .asmExpression) (some document)) :
    Decodes (expressionsOfJson? documents) fun read => expressionDocuments read = documents := by
  cases documents with
  | nil =>
    rw [expressionsOfJson?]
    exact .pure rfl
  | cons document rest =>
    rw [expressionsOfJson?]
    have first := restores_expression (each document List.mem_cons_self)
    have others := restores_expressions fun other mem => each other (List.mem_cons_of_mem _ mem)
    refine first.cons others fun read more same also => ?_
    rw [expressionDocuments, same, also]
termination_by sizeOf documents

end

/-! ## Statements -/

theorem restores_caseValue {document : Json} (fits : Fits (.nullable (.node .asmLiteral)) (some document)) :
    Decodes (caseValueOf? document) fun value => (value.map Expression.toJson).getD .null = document := by
  rcases fits.nullable with missing | inside
  · cases missing
    exact .pure rfl
  · rw [caseValueOf?_literal inside]
    refine (restores_literal inside).map fun literal same => ?_
    rw [Option.map_some, Option.getD_some, Expression.toJson, same]

theorem restores_expressionStatement {document : Json}
    (fits : Fits (.node .asmExpression) (some document)) :
    Decodes (Statement.ofJson? document) fun read => read.toJson = document := by
  rw [ofJson?_expression fits]
  refine (restores_expression fits).bind fun expression same => ?_
  cases expression with
  | unrecognised => exact .pure same
  | literal | identifier | functionalInstruction | functionCall =>
    refine .pure ?_
    rw [Statement.toJson]
    exact same

theorem restores_legacy {document : Json} {type : NodeType} (form : LegacyForm)
    (fits : Fits (.node type) (some document))
    (shape : type.schema = NodeType.asmNode form.kind [(form.operandMember, .text)]) :
    Decodes (Statement.ofJson? document) fun read => read.toJson = document := by
  obtain ⟨kind, operand, location, -⟩ := fits.members shape
  rw [ofJson?_legacy form kind]
  refine (restores_text operand).bind fun operand named => ?_
  refine (restores_maybeLocation location).bind fun location placed => .pure ?_
  rw [Statement.toJson]
  exact fits.restoredNode shape (.cons ⟨rfl, named⟩ .nil) placed

mutual

theorem restores_statement {document : Json} (fits : Fits (.node .asmStatement) (some document)) :
    Decodes (Statement.ofJson? document) fun read => read.toJson = document := by
  obtain ⟨option, listed, inside⟩ := fits.node.union
  simp only [List.mem_cons, List.not_mem_nil, or_false] at listed
  rcases listed with rfl | rfl | rfl | rfl | rfl | rfl | rfl | rfl | rfl | rfl | rfl
  · exact restores_expressionStatement inside
  · obtain ⟨kind, names, value, location, -⟩ := inside.members rfl
    rw [Statement.ofJson?, kind.kind]
    refine (restores_list names fun _ each => restores_textElement each).bind fun names listed => ?_
    refine (restores_member value (present_expression value)).bind fun value ⟨found, fitsValue⟩ => ?_
    refine (restores_expression fitsValue).bind fun expression same => ?_
    refine (restores_maybeLocation location).bind fun location placed => .pure ?_
    rw [Statement.toJson, same]
    exact inside.restoredNode rfl (.cons ⟨rfl, listed⟩ (.cons ⟨rfl, found⟩ .nil)) placed
  · obtain ⟨kind, names, value, location, -⟩ := inside.members rfl
    rw [Statement.ofJson?, kind.kind]
    refine (restores_list names fun _ each => restores_declared each).bind fun names listed => ?_
    refine (restores_optional value fun _ each => restores_expression each).bind fun value given => ?_
    refine (restores_maybeLocation location).bind fun location placed => .pure ?_
    rw [Statement.toJson]
    exact inside.restoredNode rfl (.cons ⟨rfl, listed⟩ (.cons ⟨rfl, given⟩ .nil)) placed
  · obtain ⟨kind, name, parameters, results, body, location, -⟩ := inside.members rfl
    rw [Statement.ofJson?, kind.kind]
    refine (restores_child body (body.present rfl)).bind fun ⟨block, smaller⟩ ⟨found, fitsBody⟩ => ?_
    refine (restores_text name).bind fun name named => ?_
    refine (restores_list parameters fun _ each => restores_declared each).bind fun taken takes => ?_
    refine (restores_list results fun _ each => restores_declared each).bind fun given gives => ?_
    refine (restores_block fitsBody).bind fun body same => ?_
    refine (restores_maybeLocation location).bind fun location placed => .pure ?_
    rw [Statement.toJson, same]
    exact inside.restoredNode rfl (.cons ⟨rfl, named⟩ (.cons ⟨rfl, takes⟩ (.cons ⟨rfl, gives⟩
      (.cons ⟨rfl, found⟩ .nil)))) placed
  · obtain ⟨kind, condition, body, location, -⟩ := inside.members rfl
    rw [Statement.ofJson?, kind.kind]
    refine (restores_child body (body.present rfl)).bind fun ⟨block, smaller⟩ ⟨found, fitsBody⟩ => ?_
    refine (restores_member condition (present_expression condition)).bind
      fun condition ⟨asked, fitsCondition⟩ => ?_
    refine (restores_expression fitsCondition).bind fun condition tested => ?_
    refine (restores_block fitsBody).bind fun body same => ?_
    refine (restores_maybeLocation location).bind fun location placed => .pure ?_
    rw [Statement.toJson, tested, same]
    exact inside.restoredNode rfl (.cons ⟨rfl, asked⟩ (.cons ⟨rfl, found⟩ .nil)) placed
  · obtain ⟨kind, expression, cases, location, -⟩ := inside.members rfl
    rw [Statement.ofJson?, kind.kind]
    refine (restores_items cases).bind fun ⟨elements, smaller⟩ ⟨found, each⟩ => ?_
    refine (restores_member expression (present_expression expression)).bind
      fun expression ⟨asked, fitsExpression⟩ => ?_
    refine (restores_expression fitsExpression).bind fun expression tested => ?_
    refine (restores_cases each).bind fun cases same => ?_
    refine (restores_maybeLocation location).bind fun location placed => .pure ?_
    rw [Statement.toJson, tested, same]
    exact inside.restoredNode rfl (.cons ⟨rfl, asked⟩ (.cons ⟨rfl, found⟩ .nil)) placed
  · obtain ⟨kind, pre, condition, post, body, location, -⟩ := inside.members rfl
    rw [Statement.ofJson?, kind.kind]
    refine (restores_child pre (pre.present rfl)).bind fun ⟨first, firstSmaller⟩ ⟨firstFound, fitsPre⟩ => ?_
    refine (restores_child post (post.present rfl)).bind fun ⟨last, lastSmaller⟩ ⟨lastFound, fitsPost⟩ => ?_
    refine (restores_child body (body.present rfl)).bind fun ⟨block, smaller⟩ ⟨found, fitsBody⟩ => ?_
    refine (restores_block fitsPre).bind fun pre before => ?_
    refine (restores_member condition (present_expression condition)).bind
      fun condition ⟨asked, fitsCondition⟩ => ?_
    refine (restores_expression fitsCondition).bind fun condition tested => ?_
    refine (restores_block fitsPost).bind fun post after => ?_
    refine (restores_block fitsBody).bind fun body same => ?_
    refine (restores_maybeLocation location).bind fun location placed => .pure ?_
    rw [Statement.toJson, before, tested, after, same]
    exact inside.restoredNode rfl (.cons ⟨rfl, firstFound⟩ (.cons ⟨rfl, asked⟩ (.cons ⟨rfl, lastFound⟩
      (.cons ⟨rfl, found⟩ .nil)))) placed
  · obtain ⟨kind, statements, location, -⟩ := inside.deferred.members rfl
    rw [Statement.ofJson?, kind.kind]
    refine (restores_items statements).bind fun ⟨elements, smaller⟩ ⟨found, each⟩ => ?_
    refine (restores_statements each).bind fun statements same => ?_
    refine (restores_maybeLocation location).bind fun location placed => .pure ?_
    rw [Statement.toJson, Block.toJson, kind.literal, same]
    exact inside.deferred.restoredNode rfl (.cons ⟨rfl, found⟩ .nil) placed
  · exact restores_legacy .label inside rfl
  · exact restores_legacy .stackAssignment inside rfl
  · exact restores_legacy .instruction inside rfl
termination_by sizeOf document

theorem restores_case {document : Json} (fits : Fits (.node .asmCase) (some document)) :
    Decodes (Case.ofJson? document) fun read => read.toJson = document := by
  obtain ⟨value, body, -⟩ := fits.members rfl
  rw [Case.ofJson?]
  refine (restores_child body (body.present rfl)).bind fun ⟨block, smaller⟩ ⟨found, fitsBody⟩ => ?_
  refine (restores_member value (present_caseValue value)).bind fun value ⟨given, fitsValue⟩ => ?_
  refine (restores_caseValue fitsValue).bind fun read tested => ?_
  refine (restores_block fitsBody).bind fun body same => .pure ?_
  have whole : Json.ofPresent [("value", some value), ("body", some block)] = document :=
    fits.node.restored (by decide) (.cons ⟨rfl, given⟩ (.cons ⟨rfl, found⟩ .nil))
  rw [Case.toJson, tested, same]
  exact whole
termination_by sizeOf document

theorem restores_block {document : Json} (fits : Fits (.node .asmBlock) (some document)) :
    Decodes (Block.ofJson? document) fun read => read.toJson = document := by
  obtain ⟨kind, statements, location, -⟩ := fits.members rfl
  rw [Block.ofJson?]
  refine (restores_items statements).bind fun ⟨elements, smaller⟩ ⟨found, each⟩ => ?_
  refine (restores_statements each).bind fun statements same => ?_
  refine (restores_maybeLocation location).bind fun location placed => .pure ?_
  rw [Block.toJson, kind.literal, same]
  exact fits.restoredNode rfl (.cons ⟨rfl, found⟩ .nil) placed
termination_by sizeOf document

theorem restores_statements {documents : List Json}
    (each : ∀ document ∈ documents, Fits (.node .asmStatement) (some document)) :
    Decodes (statementsOfJson? documents) fun read => statementDocuments read = documents := by
  cases documents with
  | nil =>
    rw [statementsOfJson?]
    exact .pure rfl
  | cons document rest =>
    rw [statementsOfJson?]
    have first := restores_statement (each document List.mem_cons_self)
    have others := restores_statements fun other mem => each other (List.mem_cons_of_mem _ mem)
    refine first.cons others fun read more same also => ?_
    rw [statementDocuments, same, also]
termination_by sizeOf documents

theorem restores_cases {documents : List Json}
    (each : ∀ document ∈ documents, Fits (.node .asmCase) (some document)) :
    Decodes (casesOfJson? documents) fun read => caseDocuments read = documents := by
  cases documents with
  | nil =>
    rw [casesOfJson?]
    exact .pure rfl
  | cons document rest =>
    rw [casesOfJson?]
    have first := restores_case (each document List.mem_cons_self)
    have others := restores_cases fun other mem => each other (List.mem_cons_of_mem _ mem)
    refine first.cons others fun read more same also => ?_
    rw [caseDocuments, same, also]
termination_by sizeOf documents

end

end ContractAsm.Asm

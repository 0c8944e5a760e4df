import ContractAsm.Ir.Printer
import ContractAsm.Proofs.Syntax.Lexemes

/-!
# Inline assembly as IR

The IR has a counterpart of every node of inline assembly, except of the legacy forms. The
translation goes node by node: a functional instruction becomes a call, and an absent type
the empty one. The translated block is printed as the block itself, and if everything in the
block is written as the dialect demands, it is readable.
-/

namespace ContractAsm.Asm

open Ir (Dialect LiteralReadable NamesReadable)

/-! ## Translation -/

/-- An absent type counts as the empty one. -/
def presentType (type : Option Text) : Option Text := some (type.getD .empty)

def literalToIr (literal : Literal) : Literal := { literal with type := presentType literal.type }

def nameToIr (declared : TypedName) : TypedName := ⟨declared.name, presentType declared.type⟩

mutual

def Expression.toIr : Expression → Ir.Expression
  | .literal literal => .literal (literalToIr literal)
  | .identifier name location => .identifier name location
  | .functionalInstruction instruction arguments location =>
      .functionCall instruction (expressionsToIr arguments) location
  | .functionCall name arguments location => .functionCall name (expressionsToIr arguments) location
  | .unrecognised node => .unrecognised node

def expressionsToIr : List Expression → List Ir.Expression
  | [] => []
  | expression :: rest => expression.toIr :: expressionsToIr rest

end

mutual

/-- A legacy form, of which there is none in the IR, is taken for a name that is spelled as
the form is shown. -/
def Statement.toIr : Statement → Ir.Statement
  | .expression expression => .expression expression.toIr
  | .assignment names value location => .assignment names value.toIr location
  | .variableDeclaration names value location =>
      .variableDeclaration (names.map nameToIr) (value.map Expression.toIr) location
  | .functionDefinition name parameters results body location =>
      .functionDefinition name (parameters.map nameToIr) (results.map nameToIr) body.toIr location
  | .ifThen condition body location => .ifThen condition.toIr body.toIr location
  | .switch expression cases location => .switch expression.toIr (casesToIr cases) location
  | .forLoop pre condition post body location =>
      .forLoop pre.toIr condition.toIr post.toIr body.toIr location
  | .block block => .block block.toIr
  | .legacy form operand location => .expression (.identifier (form.shown operand) location)
  | .unrecognised node => .unrecognised node

def Case.toIr : Case → Ir.Case
  | .mk value body => .mk (value.map Expression.toIr) body.toIr none

def Block.toIr : Block → Ir.Block
  | .mk statements location _ => .mk (statementsToIr statements) location

def statementsToIr : List Statement → List Ir.Statement
  | [] => []
  | statement :: rest => statement.toIr :: statementsToIr rest

def casesToIr : List Case → List Ir.Case
  | [] => []
  | case :: rest => case.toIr :: casesToIr rest

end

/-! ## The translation is printed as the assembly -/

theorem typed_presentType (text : Text) (type : Option Text) :
    Layout.typed text (presentType type) = Layout.typed text type := by
  cases type with
  | none => rfl
  | some type => rfl

theorem literal_literalToIr (literal : Literal) :
    Layout.literal (literalToIr literal) = Layout.literal literal := typed_presentType _ literal.type

theorem typedNames_nameToIr (names : List TypedName) :
    Layout.typedNames (names.map nameToIr) = Layout.typedNames names := by
  have each : (fun declared : TypedName => Layout.typed declared.name declared.type) ∘ nameToIr
      = fun declared => Layout.typed declared.name declared.type := by
    funext declared
    exact typed_presentType declared.name declared.type
  rw [Layout.typedNames, Layout.typedNames, List.map_map, each]

theorem returns_nameToIr (names : List TypedName) :
    Layout.returns (names.map nameToIr) = Layout.returns names := by
  rw [Layout.returns, Layout.returns, List.isEmpty_map, typedNames_nameToIr]

mutual

theorem Expression.layout_toIr (expression : Expression) : expression.toIr.layout = expression.layout := by
  match expression with
  | .literal literal => rw [Expression.toIr, Ir.Expression.layout, Expression.layout, literal_literalToIr]
  | .identifier _ _ | .unrecognised _ => rfl
  | .functionalInstruction _ arguments _ | .functionCall _ arguments _ =>
    rw [Expression.toIr, Ir.Expression.layout, Expression.layout, layouts_expressionsToIr]

theorem layouts_expressionsToIr (expressions : List Expression) :
    Ir.expressionLayouts (expressionsToIr expressions) = expressionLayouts expressions := by
  match expressions with
  | [] => rfl
  | expression :: rest =>
    rw [expressionsToIr, Ir.expressionLayouts, expressionLayouts, Expression.layout_toIr,
      layouts_expressionsToIr]

end

mutual

theorem Statement.layout_toIr (statement : Statement) : statement.toIr.layout = statement.layout := by
  cases statement with
  | expression value => exact value.layout_toIr
  | assignment names value location =>
    rw [Statement.toIr, Ir.Statement.layout, Statement.layout, value.layout_toIr]
  | variableDeclaration names value location =>
    have same : (value.map Expression.toIr).map Ir.Expression.layout = value.map Expression.layout := by
      cases value with
      | none => rfl
      | some value => rw [Option.map_some, Option.map_some, Option.map_some, value.layout_toIr]
    simp only [Statement.toIr, Ir.Statement.layout, Statement.layout, same, Layout.declaration,
      typedNames_nameToIr]
  | functionDefinition name parameters results body location =>
    rw [Statement.toIr, Ir.Statement.layout, Statement.layout, Block.layout_toIr body, Layout.function,
      typedNames_nameToIr, returns_nameToIr, Layout.function]
  | ifThen condition body location =>
    rw [Statement.toIr, Ir.Statement.layout, Statement.layout, condition.layout_toIr, Block.layout_toIr body]
  | switch expression cases location =>
    rw [Statement.toIr, Ir.Statement.layout, Statement.layout, expression.layout_toIr, layouts_casesToIr]
  | forLoop pre condition post body location =>
    rw [Statement.toIr, Ir.Statement.layout, Statement.layout, Block.layout_toIr pre, condition.layout_toIr,
      Block.layout_toIr post, Block.layout_toIr body]
  | block block => exact Block.layout_toIr block
  | legacy | unrecognised => rfl

theorem Case.layout_toIr (case : Case) : case.toIr.layout = case.layout := by
  match case with
  | .mk none body =>
    rw [Case.toIr, Ir.Case.layout, Case.layout, Block.layout_toIr body, Option.map_none, Option.map_none,
      Option.map_none]
  | .mk (some value) body =>
    rw [Case.toIr, Ir.Case.layout, Case.layout, Block.layout_toIr body, Option.map_some, Option.map_some,
      Option.map_some, value.layout_toIr]

theorem Block.layout_toIr (block : Block) : block.toIr.layout = block.layout := by
  match block with
  | .mk statements _ _ => rw [Block.toIr, Ir.Block.layout, Block.layout, layouts_statementsToIr]

theorem layouts_statementsToIr (statements : List Statement) :
    Ir.statementLayouts (statementsToIr statements) = statementLayouts statements := by
  match statements with
  | [] => rfl
  | statement :: rest =>
    rw [statementsToIr, Ir.statementLayouts, statementLayouts, Statement.layout_toIr, layouts_statementsToIr]

theorem layouts_casesToIr (cases : List Case) : Ir.caseLayouts (casesToIr cases) = caseLayouts cases := by
  match cases with
  | [] => rfl
  | case :: rest =>
    rw [casesToIr, Ir.caseLayouts, caseLayouts, Case.layout_toIr, layouts_casesToIr]

end

/-! ## Recognised nodes -/

mutual

theorem Expression.isRecognised_toIr (expression : Expression) :
    expression.toIr.isRecognised = expression.isRecognised := by
  match expression with
  | .literal _ | .identifier _ _ | .unrecognised _ => rfl
  | .functionalInstruction _ arguments _ | .functionCall _ arguments _ =>
    exact areRecognised_expressionsToIr arguments

theorem areRecognised_expressionsToIr (expressions : List Expression) :
    Ir.areRecognisedExpressions (expressionsToIr expressions) = areRecognisedExpressions expressions := by
  match expressions with
  | [] => rfl
  | expression :: rest =>
    rw [expressionsToIr, Ir.areRecognisedExpressions, areRecognisedExpressions,
      Expression.isRecognised_toIr, areRecognised_expressionsToIr]

end

mutual

theorem Statement.isRecognised_toIr (statement : Statement) :
    statement.toIr.isRecognised = statement.isRecognised := by
  cases statement with
  | expression value => exact value.isRecognised_toIr
  | assignment names value location => exact value.isRecognised_toIr
  | variableDeclaration names value location =>
    cases value with
    | none => rfl
    | some value => exact value.isRecognised_toIr
  | functionDefinition name parameters results body location => exact Block.isRecognised_toIr body
  | ifThen condition body location =>
    rw [Statement.toIr, Ir.Statement.isRecognised, Statement.isRecognised, condition.isRecognised_toIr,
      Block.isRecognised_toIr body]
  | switch expression cases location =>
    rw [Statement.toIr, Ir.Statement.isRecognised, Statement.isRecognised, expression.isRecognised_toIr,
      areRecognised_casesToIr]
  | forLoop pre condition post body location =>
    rw [Statement.toIr, Ir.Statement.isRecognised, Statement.isRecognised, Block.isRecognised_toIr pre,
      condition.isRecognised_toIr, Block.isRecognised_toIr post, Block.isRecognised_toIr body]
  | block block => exact Block.isRecognised_toIr block
  | legacy | unrecognised => rfl

theorem Case.isRecognised_toIr (case : Case) : case.toIr.isRecognised = case.isRecognised := by
  match case with
  | .mk none body => exact Block.isRecognised_toIr body
  | .mk (some value) body =>
    rw [Case.toIr, Option.map_some, Ir.Case.isRecognised, Case.isRecognised, value.isRecognised_toIr,
      Block.isRecognised_toIr body]

theorem Block.isRecognised_toIr (block : Block) : block.toIr.isRecognised = block.isRecognised := by
  match block with
  | .mk statements _ _ => exact areRecognised_statementsToIr statements

theorem areRecognised_statementsToIr (statements : List Statement) :
    Ir.areRecognised (statementsToIr statements) = areRecognised statements := by
  match statements with
  | [] => rfl
  | statement :: rest =>
    rw [statementsToIr, Ir.areRecognised, areRecognised, Statement.isRecognised_toIr,
      areRecognised_statementsToIr]

theorem areRecognised_casesToIr (cases : List Case) :
    Ir.areRecognisedCases (casesToIr cases) = areRecognisedCases cases := by
  match cases with
  | [] => rfl
  | case :: rest =>
    rw [casesToIr, Ir.areRecognisedCases, areRecognisedCases, Case.isRecognised_toIr,
      areRecognised_casesToIr]

end

/-! ## Assembly in a dialect -/

mutual

def Expression.Readable (dialect : Dialect) : Expression → Prop
  | .literal literal => LiteralReadable dialect literal
  | .identifier name _ => IsName name
  | .functionalInstruction instruction arguments _ =>
      IsName instruction ∧ ExpressionsReadable dialect arguments
  | .functionCall name arguments _ => IsName name ∧ ExpressionsReadable dialect arguments
  | .unrecognised _ => False

def ExpressionsReadable (dialect : Dialect) : List Expression → Prop
  | [] => True
  | expression :: rest => expression.Readable dialect ∧ ExpressionsReadable dialect rest

end

def Expression.IsCall : Expression → Prop
  | .functionalInstruction _ _ _ => True
  | .functionCall _ _ _ => True
  | _ => False

mutual

/-- A statement that is written as the dialect demands: something is declared and assigned, a
switch has a case or a default, the default comes last, and there is no legacy form. -/
def Statement.Readable (dialect : Dialect) : Statement → Prop
  | .expression expression => expression.IsCall ∧ expression.Readable dialect
  | .assignment names value _ => names ≠ [] ∧ (∀ name ∈ names, IsName name) ∧ value.Readable dialect
  | .variableDeclaration names none _ => names ≠ [] ∧ NamesReadable dialect names
  | .variableDeclaration names (some value) _ =>
      names ≠ [] ∧ NamesReadable dialect names ∧ value.Readable dialect
  | .functionDefinition name parameters results body _ =>
      IsName name ∧ NamesReadable dialect parameters ∧ NamesReadable dialect results
        ∧ body.Readable dialect
  | .ifThen condition body _ => condition.Readable dialect ∧ body.Readable dialect
  | .switch expression cases _ =>
      expression.Readable dialect ∧ cases ≠ [] ∧ CasesReadable dialect cases
  | .forLoop pre condition post body _ =>
      pre.Readable dialect ∧ condition.Readable dialect ∧ post.Readable dialect ∧ body.Readable dialect
  | .block block => block.Readable dialect
  | .legacy _ _ _ => False
  | .unrecognised _ => False

def Block.Readable (dialect : Dialect) : Block → Prop
  | .mk statements _ _ => StatementsReadable dialect statements

def StatementsReadable (dialect : Dialect) : List Statement → Prop
  | [] => True
  | statement :: rest => statement.Readable dialect ∧ StatementsReadable dialect rest

def CasesReadable (dialect : Dialect) : List Case → Prop
  | [] => True
  | .mk none body :: rest => body.Readable dialect ∧ rest = []
  | .mk (some (.literal value)) body :: rest =>
      LiteralReadable dialect value ∧ body.Readable dialect ∧ CasesReadable dialect rest
  | _ :: _ => False

end

variable {dialect : Dialect}

theorem types_presentType {type : Option Text} (types : dialect.Types type) :
    dialect.Types (presentType type) := by
  cases type with
  | none => exact types.elim
  | some type => exact types

theorem readable_literalToIr {literal : Literal} (readable : LiteralReadable dialect literal) :
    LiteralReadable dialect (literalToIr literal) := ⟨readable.1, types_presentType readable.2⟩

theorem readable_nameToIr {names : List TypedName} (readable : NamesReadable dialect names) :
    NamesReadable dialect (names.map nameToIr) := by
  intro declared member
  obtain ⟨original, mem, rfl⟩ := List.mem_map.mp member
  exact ⟨(readable original mem).1, types_presentType (readable original mem).2⟩

mutual

theorem Expression.Readable.toIr {expression : Expression} (readable : expression.Readable dialect) :
    expression.toIr.Readable dialect := by
  match expression with
  | .literal _ => exact readable_literalToIr readable
  | .identifier _ _ => exact readable
  | .functionalInstruction _ _ _ | .functionCall _ _ _ =>
    exact ⟨readable.1, expressionsReadable_toIr readable.2⟩

theorem expressionsReadable_toIr {expressions : List Expression}
    (readable : ExpressionsReadable dialect expressions) :
    Ir.ReadableEach dialect (expressionsToIr expressions) := by
  match expressions with
  | [] => trivial
  | expression :: rest => exact ⟨Expression.Readable.toIr readable.1, expressionsReadable_toIr readable.2⟩

end

mutual

theorem Statement.Readable.toIr {statement : Statement} (readable : statement.Readable dialect) :
    statement.toIr.Readable dialect := by
  cases statement with
  | expression value =>
    obtain ⟨call, inside⟩ := readable
    cases value with
    | functionalInstruction | functionCall => exact inside.toIr
    | literal | identifier | unrecognised => exact call.elim
  | assignment names value location => exact ⟨readable.1, readable.2.1, readable.2.2.toIr⟩
  | variableDeclaration names value location =>
    have some : names ≠ [] → names.map nameToIr ≠ [] := fun nonempty => by simp [nonempty]
    cases value with
    | none => exact ⟨some readable.1, readable_nameToIr readable.2⟩
    | some value => exact ⟨some readable.1, readable_nameToIr readable.2.1, readable.2.2.toIr⟩
  | functionDefinition name parameters results body location =>
    obtain ⟨named, taken, given, inside⟩ := readable
    exact ⟨named, readable_nameToIr taken, readable_nameToIr given, Block.Readable.toIr inside⟩
  | ifThen condition body location => exact ⟨readable.1.toIr, Block.Readable.toIr readable.2⟩
  | switch expression cases location =>
    obtain ⟨tested, nonempty, branches⟩ := readable
    refine ⟨tested.toIr, ?_, casesReadable_toIr branches⟩
    cases cases with
    | nil => exact absurd rfl nonempty
    | cons => exact List.cons_ne_nil _ _
  | forLoop pre condition post body location =>
    obtain ⟨prepared, tested, advanced, inside⟩ := readable
    exact ⟨Block.Readable.toIr prepared, tested.toIr, Block.Readable.toIr advanced,
      Block.Readable.toIr inside⟩
  | block block => exact Block.Readable.toIr readable
  | legacy | unrecognised => exact readable.elim

theorem Block.Readable.toIr {block : Block} (readable : block.Readable dialect) :
    block.toIr.Readable dialect := by
  match block with
  | .mk statements _ _ => exact ⟨rfl, statementsReadable_toIr readable⟩

theorem statementsReadable_toIr {statements : List Statement}
    (readable : StatementsReadable dialect statements) :
    Ir.StatementsReadable dialect (statementsToIr statements) := by
  match statements with
  | [] => trivial
  | statement :: rest => exact ⟨Statement.Readable.toIr readable.1, statementsReadable_toIr readable.2⟩

theorem casesReadable_toIr {cases : List Case} (readable : CasesReadable dialect cases) :
    Ir.CasesReadable dialect (casesToIr cases) := by
  match cases with
  | [] => trivial
  | .mk none body :: rest =>
    obtain ⟨inside, rfl⟩ := readable
    exact ⟨Block.Readable.toIr inside, rfl⟩
  | .mk (some (.literal value)) body :: rest =>
    obtain ⟨valid, inside, others⟩ := readable
    exact ⟨readable_literalToIr valid, Block.Readable.toIr inside, casesReadable_toIr others⟩
  | .mk (some (.identifier ..)) _ :: _ | .mk (some (.functionCall ..)) _ :: _
  | .mk (some (.functionalInstruction ..)) _ :: _ | .mk (some (.unrecognised ..)) _ :: _ =>
    exact readable.elim

end

end ContractAsm.Asm

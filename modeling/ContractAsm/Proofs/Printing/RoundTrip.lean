import ContractAsm.Ir.Printer
import ContractAsm.Proofs.Printing.Shapes
import ContractAsm.Proofs.Syntax.Acceptance
import ContractAsm.Proofs.Syntax.Derivation

/-!
# What is printed is read back

A readable tree prints as a text that is scanned to its lexemes, each part inside its
neighbours, and from these the parser derives the tree again, in both dialects. Only the
locations are those of the new text.
-/

namespace ContractAsm.Ir

open Layout (Prints)

variable {dialect : Dialect}

/-! ## Expressions -/

mutual

theorem Expression.prints {expression : Expression} (h : expression.Readable dialect) :
    Prints false false expression.layout expression.lexemes := by
  match expression with
  | .literal _ => exact Layout.prints_literal h
  | .identifier _ _ => exact Layout.prints_name h
  | .functionCall _ _ _ => exact Layout.prints_call h.1 (arguments_print h.2)

theorem arguments_print {arguments : List Expression} (h : ReadableEach dialect arguments) :
    Prints false false (Layout.join ", " (expressionLayouts arguments))
      (separated (lexemesEach arguments)) := by
  match arguments with
  | [] => exact Layout.prints_empty
  | expression :: rest =>
    have head := Expression.prints h.1
    have tail := arguments_print h.2
    cases rest with
    | nil =>
      have single : separated (lexemesEach [expression]) = expression.lexemes := List.append_nil _
      rw [single]
      exact head
    | cons next rest => exact head.comma tail

end

/-! ## Statements -/

mutual

theorem Block.prints {block : Block} (h : block.Readable dialect) :
    Prints true true block.layout block.lexemes := by
  match block with
  | .mk statements _ _ =>
    refine Layout.prints_braced (statements_print h.2) fun none => ?_
    cases statements with
    | nil => rfl
    | cons => cases none

theorem statements_print {statements : List Statement} (h : StatementsReadable dialect statements) :
    Prints false false (Layout.join "\n" (statementLayouts statements)) (statementsLexemes statements) := by
  match statements with
  | [] => exact Layout.prints_empty
  | statement :: rest =>
    have head := Statement.prints h.1
    have tail := statements_print h.2
    cases rest with
    | nil =>
      have single : statementsLexemes [statement] = statement.lexemes := List.append_nil _
      rw [single]
      exact head
    | cons next rest => exact head.line tail

theorem Statement.prints {statement : Statement} (h : statement.Readable dialect) :
    Prints false false statement.layout statement.lexemes := by
  cases statement with
  | expression expression =>
    cases expression with
    | functionCall name arguments location => exact Expression.prints h
    | literal | identifier | unrecognised => exact h.elim
  | variableDeclaration names value location =>
    cases value with
    | none => exact Layout.prints_declaration h.2
    | some value => exact Layout.prints_initialisation h.2.1 (Expression.prints h.2.2)
  | assignment names value location =>
    exact Layout.prints_assignment h.2.1 (Expression.prints h.2.2)
  | functionDefinition name parameters results body location =>
    obtain ⟨named, taken, given, inside⟩ := h
    exact Layout.prints_function named taken given (Block.prints inside)
  | switch expression cases location =>
    exact Layout.prints_switch (Expression.prints h.1) (cases_print h.2.2)
  | ifThen condition body location =>
    exact Layout.prints_ifThen (Expression.prints h.1) (Block.prints h.2)
  | forLoop pre condition post body location =>
    obtain ⟨prepared, tested, advanced, inside⟩ := h
    exact Layout.prints_forLoop (Block.prints prepared) (Expression.prints tested)
      (Block.prints advanced) (Block.prints inside)
  | breakLoop location => exact Layout.prints_keyword .breakWord
  | continueLoop location => exact Layout.prints_keyword .continueWord
  | block block => exact (Block.prints h).weaken
  | case | inlineAssembly | unrecognised => exact h.elim

theorem cases_print {cases : List Case} (h : CasesReadable dialect cases) :
    Prints false false (Layout.join "\n" (caseLayouts cases)) (casesLexemes cases) := by
  match cases with
  | [] => exact Layout.prints_empty
  | .mk none body location :: _ =>
    obtain ⟨inside, rfl⟩ := h
    have single : casesLexemes [.mk none body location] = .keyword .defaultWord :: body.lexemes :=
      List.append_nil _
    rw [single]
    exact Layout.prints_default (Block.prints inside)
  | .mk (some (.literal value)) body location :: rest =>
    obtain ⟨valid, inside, others⟩ := h
    have head := Layout.prints_case (Layout.prints_literal valid) (Block.prints inside)
    have tail := cases_print others
    cases rest with
    | nil =>
      have single : casesLexemes [.mk (some (.literal value)) body location]
          = .keyword .caseWord :: (literalLexemes value ++ body.lexemes) := List.append_nil _
      rw [single]
      exact head
    | cons next rest => exact head.line tail
  | .mk (some (.identifier ..)) .. :: _ | .mk (some (.functionCall ..)) .. :: _
  | .mk (some (.unrecognised ..)) .. :: _ | .other .. :: _ => exact h.elim

end

/-- The text of a readable block is scanned to its lexemes. -/
theorem scan_render {block : Block} (h : block.Readable dialect) :
    ∃ tokens, Token.scan block.render = .ok tokens ∧ tokens.map Token.lexeme = block.lexemes := by
  have reads := (Block.prints h).reads 0 (fun open_ => nomatch open_) Token.reads_nil
  rw [List.append_nil] at reads
  exact reads.scan

/-! ## Recognised nodes -/

mutual

theorem Expression.recognised {expression : Expression} (h : expression.Readable dialect) :
    expression.isRecognised = true := by
  match expression with
  | .literal _ | .identifier _ _ => rfl
  | .functionCall _ _ _ => exact arguments_recognised h.2

theorem arguments_recognised {arguments : List Expression} (h : ReadableEach dialect arguments) :
    areRecognisedExpressions arguments = true := by
  match arguments with
  | [] => rfl
  | expression :: rest =>
    rw [areRecognisedExpressions, Expression.recognised h.1, arguments_recognised h.2]
    rfl

end

mutual

theorem Block.recognised {block : Block} (h : block.Readable dialect) : block.isRecognised = true := by
  match block with
  | .mk _ _ _ => exact statements_recognised h.2

theorem statements_recognised {statements : List Statement} (h : StatementsReadable dialect statements) :
    areRecognised statements = true := by
  match statements with
  | [] => rfl
  | statement :: rest =>
    rw [areRecognised, Statement.recognised h.1, statements_recognised h.2]
    rfl

theorem Statement.recognised {statement : Statement} (h : statement.Readable dialect) :
    statement.isRecognised = true := by
  cases statement with
  | expression expression =>
    cases expression with
    | functionCall name arguments location => exact Expression.recognised h
    | literal | identifier | unrecognised => exact h.elim
  | variableDeclaration names value location =>
    cases value with
    | none => rfl
    | some value => exact Expression.recognised h.2.2
  | assignment names value location => exact Expression.recognised h.2.2
  | functionDefinition name parameters results body location => exact Block.recognised h.2.2.2
  | switch expression cases location =>
    rw [Statement.isRecognised, Expression.recognised h.1, cases_recognised h.2.2]
    rfl
  | ifThen condition body location =>
    rw [Statement.isRecognised, Expression.recognised h.1, Block.recognised h.2]
    rfl
  | forLoop pre condition post body location =>
    obtain ⟨prepared, tested, advanced, inside⟩ := h
    rw [Statement.isRecognised, Block.recognised prepared, Expression.recognised tested,
      Block.recognised advanced, Block.recognised inside]
    rfl
  | breakLoop | continueLoop => rfl
  | block block => exact Block.recognised h
  | case | inlineAssembly | unrecognised => exact h.elim

theorem cases_recognised {cases : List Case} (h : CasesReadable dialect cases) :
    areRecognisedCases cases = true := by
  match cases with
  | [] => rfl
  | .mk none body location :: _ =>
    obtain ⟨inside, rfl⟩ := h
    rw [areRecognisedCases, Case.isRecognised, Block.recognised inside]
    rfl
  | .mk (some (.literal value)) body location :: rest =>
    obtain ⟨-, inside, others⟩ := h
    rw [areRecognisedCases, Case.isRecognised, Block.recognised inside, cases_recognised others]
    rfl
  | .mk (some (.identifier ..)) .. :: _ | .mk (some (.functionCall ..)) .. :: _
  | .mk (some (.unrecognised ..)) .. :: _ | .other .. :: _ => exact h.elim

end

/-! ## The round trip -/

/-- A readable block has a text, and this is read as a block that differs from it in its
locations alone. No error is found in it. -/
theorem parse_print {block : Block} (h : block.Readable dialect) :
    ∃ text found, block.print? = some text ∧ (parse text dialect).block = some found ∧
      found.withoutLocations = block.withoutLocations ∧
      ∀ finding ∈ (parse text dialect).diagnostics, finding.severity = "warning" := by
  obtain ⟨tokens, scanned, spelled⟩ := scan_render h
  obtain ⟨found, derived, same⟩ := Block.derived h spelled
  have read := parse_derived scanned derived
  refine ⟨block.render, found, ?_, ?_, same, ?_⟩
  · rw [Block.print?, if_pos (Block.recognised h)]
  · rw [read]
  · intro finding member
    rw [read] at member
    obtain ⟨location, -, rfl⟩ := List.mem_map.mp member
    rfl

def quoting : Block :=
  .mk [
    .functionDefinition "f" [⟨"a", some "u256"⟩] [⟨"b", some "u256"⟩]
      (.mk [.assignment ["b"]
        (.functionCall "eq" [.identifier "a" none, .literal ⟨.string, "\\\"", some "bytes", none⟩] none)
        none] none) none,
    .switch (.literal ⟨.number, "0x1F", some "u256", none⟩) [.mk none .empty none] none] none

theorem parse_print_quoting :
    quoting.Readable {} ∧
      ∃ text found, quoting.print? = some text ∧ (parse text {}).block = some found ∧
        found.withoutLocations = quoting.withoutLocations ∧
        ∀ finding ∈ (parse text {}).diagnostics, finding.severity = "warning" := by
  have a : IsName "a" := ⟨⟨_, _, rfl, by decide, List.all_eq_true.mp rfl⟩, rfl⟩
  have b : IsName "b" := ⟨⟨_, _, rfl, by decide, List.all_eq_true.mp rfl⟩, rfl⟩
  have f : IsName "f" := ⟨⟨_, _, rfl, by decide, List.all_eq_true.mp rfl⟩, rfl⟩
  have eq : IsName "eq" := ⟨⟨_, _, rfl, by decide, List.all_eq_true.mp rfl⟩, rfl⟩
  have word : IsName "u256" := ⟨⟨_, _, rfl, by decide, List.all_eq_true.mp rfl⟩, rfl⟩
  have bytes : IsName "bytes" := ⟨⟨_, _, rfl, by decide, List.all_eq_true.mp rfl⟩, rfl⟩
  have string : LiteralReadable {} ⟨.string, "\\\"", some "bytes", none⟩ :=
    ⟨⟨.pair .nil, by decide⟩, bytes⟩
  have number : LiteralReadable {} ⟨.number, "0x1F", some "u256", none⟩ :=
    ⟨.hexadecimal (List.cons_ne_nil _ _) (List.all_eq_true.mp rfl), word⟩
  have declares : ∀ {name : Text}, IsName name → NamesReadable {} [⟨name, some "u256"⟩] := by
    rintro name named _ ⟨⟩
    · exact ⟨named, word⟩
    · contradiction
  have assigned : ∀ name ∈ [("b" : Text)], IsName name := by
    rintro _ ⟨⟩
    · exact b
    · contradiction
  have readable : quoting.Readable {} :=
    ⟨rfl, ⟨f, declares a, declares b, rfl,
        ⟨List.cons_ne_nil _ _, assigned, eq, a, string, trivial⟩, trivial⟩,
      ⟨number, List.cons_ne_nil _ _, ⟨rfl, trivial⟩, rfl⟩, trivial⟩
  exact ⟨readable, parse_print readable⟩

end ContractAsm.Ir

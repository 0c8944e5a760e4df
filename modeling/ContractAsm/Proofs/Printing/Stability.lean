import ContractAsm.Proofs.Printing.RoundTrip
import ContractAsm.Proofs.Syntax.Readability
import Mathlib

/-!
# Formatting twice changes nothing

A text that is read and printed is read again as the same tree, and printed as the same text,
as long as none of its strings goes over the end of a line. The printer moves every line in,
also one that starts inside a string.
-/

namespace ContractAsm.Ir

open CodeUnit (newline)

/-! ## Locations are not printed -/

mutual

theorem Expression.layout_withoutLocations (expression : Expression) :
    expression.withoutLocations.layout = expression.layout := by
  match expression with
  | .literal _ | .identifier _ _ | .unrecognised _ => rfl
  | .functionCall name arguments location =>
    rw [Expression.withoutLocations, Expression.layout, Expression.layout, layouts_withoutLocationsEach]

theorem layouts_withoutLocationsEach (expressions : List Expression) :
    expressionLayouts (withoutLocationsEach expressions) = expressionLayouts expressions := by
  match expressions with
  | [] => rfl
  | expression :: rest =>
    rw [withoutLocationsEach, expressionLayouts, expressionLayouts, Expression.layout_withoutLocations,
      layouts_withoutLocationsEach]

end

mutual

theorem Statement.layout_withoutLocations (statement : Statement) :
    statement.withoutLocations.layout = statement.layout := by
  cases statement with
  | expression value => exact value.layout_withoutLocations
  | variableDeclaration names value location =>
    cases value with
    | none => rfl
    | some value =>
      simp only [Statement.withoutLocations, Statement.layout, Option.map_some,
        Expression.layout_withoutLocations]
  | assignment names value location =>
    simp only [Statement.withoutLocations, Statement.layout, Expression.layout_withoutLocations]
  | functionDefinition name parameters results body location =>
    simp only [Statement.withoutLocations, Statement.layout, Block.layout_withoutLocations]
  | case case => exact Case.layout_withoutLocations case
  | switch expression cases location =>
    simp only [Statement.withoutLocations, Statement.layout, Expression.layout_withoutLocations,
      layouts_casesWithoutLocations]
  | ifThen condition body location =>
    simp only [Statement.withoutLocations, Statement.layout, Expression.layout_withoutLocations,
      Block.layout_withoutLocations]
  | forLoop pre condition post body location =>
    simp only [Statement.withoutLocations, Statement.layout, Expression.layout_withoutLocations,
      Block.layout_withoutLocations]
  | block block => exact Block.layout_withoutLocations block
  | breakLoop | continueLoop | inlineAssembly | unrecognised => rfl

theorem Case.layout_withoutLocations (case : Case) : case.withoutLocations.layout = case.layout := by
  match case with
  | .mk none body location =>
    simp only [Case.withoutLocations, Case.layout, Option.map_none, Block.layout_withoutLocations]
  | .mk (some value) body location =>
    simp only [Case.withoutLocations, Case.layout, Option.map_some, Expression.layout_withoutLocations,
      Block.layout_withoutLocations]
  | .other statement => exact Statement.layout_withoutLocations statement

theorem Block.layout_withoutLocations (block : Block) : block.withoutLocations.layout = block.layout := by
  match block with
  | .mk statements location kind =>
    rw [Block.withoutLocations, Block.layout, Block.layout, layouts_statementsWithoutLocations]

theorem layouts_statementsWithoutLocations (statements : List Statement) :
    statementLayouts (statementsWithoutLocations statements) = statementLayouts statements := by
  match statements with
  | [] => rfl
  | statement :: rest =>
    rw [statementsWithoutLocations, statementLayouts, statementLayouts, Statement.layout_withoutLocations,
      layouts_statementsWithoutLocations]

theorem layouts_casesWithoutLocations (cases : List Case) :
    caseLayouts (casesWithoutLocations cases) = caseLayouts cases := by
  match cases with
  | [] => rfl
  | case :: rest =>
    rw [casesWithoutLocations, caseLayouts, caseLayouts, Case.layout_withoutLocations,
      layouts_casesWithoutLocations]

end

/-- Blocks that differ in their locations alone have one text. -/
theorem Block.render_congr {first second : Block} (same : first.withoutLocations = second.withoutLocations) :
    first.render = second.render := by
  rw [Block.render, Block.render, ← Block.layout_withoutLocations, same, Block.layout_withoutLocations]

mutual

theorem Expression.isRecognised_withoutLocations (expression : Expression) :
    expression.withoutLocations.isRecognised = expression.isRecognised := by
  match expression with
  | .literal _ | .identifier _ _ | .unrecognised _ => rfl
  | .functionCall name arguments location => exact areRecognised_withoutLocationsEach arguments

theorem areRecognised_withoutLocationsEach (expressions : List Expression) :
    areRecognisedExpressions (withoutLocationsEach expressions) = areRecognisedExpressions expressions := by
  match expressions with
  | [] => rfl
  | expression :: rest =>
    rw [withoutLocationsEach, areRecognisedExpressions, areRecognisedExpressions,
      Expression.isRecognised_withoutLocations, areRecognised_withoutLocationsEach]

end

mutual

theorem Statement.isRecognised_withoutLocations (statement : Statement) :
    statement.withoutLocations.isRecognised = statement.isRecognised := by
  cases statement with
  | expression value => exact value.isRecognised_withoutLocations
  | variableDeclaration names value location =>
    cases value with
    | none => rfl
    | some value => exact value.isRecognised_withoutLocations
  | assignment names value location => exact value.isRecognised_withoutLocations
  | functionDefinition name parameters results body location =>
    exact Block.isRecognised_withoutLocations body
  | case case => exact Case.isRecognised_withoutLocations case
  | switch expression cases location =>
    simp only [Statement.withoutLocations, Statement.isRecognised, Expression.isRecognised_withoutLocations,
      areRecognised_casesWithoutLocations]
  | ifThen condition body location =>
    simp only [Statement.withoutLocations, Statement.isRecognised, Expression.isRecognised_withoutLocations,
      Block.isRecognised_withoutLocations]
  | forLoop pre condition post body location =>
    simp only [Statement.withoutLocations, Statement.isRecognised, Expression.isRecognised_withoutLocations,
      Block.isRecognised_withoutLocations]
  | block block => exact Block.isRecognised_withoutLocations block
  | breakLoop | continueLoop | inlineAssembly | unrecognised => rfl

theorem Case.isRecognised_withoutLocations (case : Case) :
    case.withoutLocations.isRecognised = case.isRecognised := by
  match case with
  | .mk none body location => exact Block.isRecognised_withoutLocations body
  | .mk (some value) body location =>
    simp only [Case.withoutLocations, Case.isRecognised, Option.map_some,
      Expression.isRecognised_withoutLocations, Block.isRecognised_withoutLocations]
  | .other statement => exact Statement.isRecognised_withoutLocations statement

theorem Block.isRecognised_withoutLocations (block : Block) :
    block.withoutLocations.isRecognised = block.isRecognised := by
  match block with
  | .mk statements location kind => exact areRecognised_statementsWithoutLocations statements

theorem areRecognised_statementsWithoutLocations (statements : List Statement) :
    areRecognised (statementsWithoutLocations statements) = areRecognised statements := by
  match statements with
  | [] => rfl
  | statement :: rest =>
    rw [statementsWithoutLocations, areRecognised, areRecognised, Statement.isRecognised_withoutLocations,
      areRecognised_statementsWithoutLocations]

theorem areRecognised_casesWithoutLocations (cases : List Case) :
    areRecognisedCases (casesWithoutLocations cases) = areRecognisedCases cases := by
  match cases with
  | [] => rfl
  | case :: rest =>
    rw [casesWithoutLocations, areRecognisedCases, areRecognisedCases, Case.isRecognised_withoutLocations,
      areRecognised_casesWithoutLocations]

end

theorem Block.print?_congr {first second : Block} (same : first.withoutLocations = second.withoutLocations) :
    first.print? = second.print? := by
  have recognised : first.isRecognised = second.isRecognised := by
    rw [← Block.isRecognised_withoutLocations, same, Block.isRecognised_withoutLocations]
  rw [Block.print?, Block.print?, recognised, Block.render_congr same]

/-! ## Strings on one line -/

/-- No string of the text goes over the end of a line. -/
def SingleLineStrings (source : Text) : Prop :=
  ∀ tokens, Token.scan source = .ok tokens → ∀ token ∈ tokens, ∀ value,
    token.lexeme = .string value → newline ∉ value.units

theorem areWritten_of_scan {source : Text} {tokens : List Token} (scanned : Token.scan source = .ok tokens)
    (single : SingleLineStrings source) : AreWritten tokens := by
  intro token member
  have spelled := (Token.scan_iff.mp scanned).spelled token member
  exact ⟨spelled, single tokens scanned token member⟩

/-- A block that is read from a text whose strings end on their lines is printed, and the
text is read as the same block again, which is printed as the same text. -/
theorem print_stable {source : Text} {dialect : Dialect} {block : Block} (single : SingleLineStrings source)
    (read : (parse source dialect).block = some block) :
    ∃ text found, block.print? = some text ∧ (parse text dialect).block = some found
      ∧ found.withoutLocations = block.withoutLocations ∧ found.print? = some text := by
  obtain ⟨tokens, scanned, derived⟩ := derives_of_parse read
  have readable := derived.readable (areWritten_of_scan scanned single)
  obtain ⟨again, rescanned, spelled⟩ := scan_render readable
  obtain ⟨found, rederived, same⟩ := Block.derived readable spelled
  have printed : block.print? = some block.render := by
    rw [Block.print?, if_pos (Block.recognised readable)]
  have reread := parse_derived rescanned rederived
  refine ⟨block.render, found, printed, ?_, same, ?_⟩
  · rw [reread]
  · rw [Block.print?_congr same, printed]

def commented : Text := "\x7b f(\"\\\"\") // g\n \x7d"

theorem print_stable_commented :
    SingleLineStrings commented ∧ ∃ block text found, (parse commented ⟨false, "<input>"⟩).block = some block
      ∧ block.print? = some text ∧ (parse text ⟨false, "<input>"⟩).block = some found
      ∧ found.withoutLocations = block.withoutLocations ∧ found.print? = some text := by
  have scanned : Token.scan commented = .ok [
      ⟨.punctuation .openBrace, 0, 1⟩, ⟨.identifier "f", 2, 3⟩, ⟨.punctuation .openParen, 3, 4⟩,
      ⟨.string "\\\"", 4, 8⟩, ⟨.punctuation .closeParen, 8, 9⟩, ⟨.punctuation .closeBrace, 16, 17⟩] := by cbv
  have single : SingleLineStrings commented := by
    intro tokens same token member value string
    rw [scanned] at same
    cases same
    have only : value = "\\\"" := by
      simp only [List.mem_cons, List.not_mem_nil, or_false] at member
      rcases member with rfl | rfl | rfl | rfl | rfl | rfl <;> cases string
      rfl
    rw [only]
    decide
  have accepted : (parse commented ⟨false, "<input>"⟩).block.isSome = true := by cbv
  obtain ⟨block, read⟩ := Option.isSome_iff_exists.mp accepted
  obtain ⟨text, found, stable⟩ := print_stable single read
  exact ⟨single, block, text, found, read, stable⟩

def spanning : Text := "\x7b f(\"\\\n\") \x7d"

/-- What `spanning` is printed as: the second line of the string is moved in. -/
def spanningPrinted : Text := "\x7b\n    f(\"\\\n    \")\n\x7d"

/-- A block that calls `f` with a string; the offsets are those of the string, of the call and
of the block. -/
def stringCall (value : Text) (literal call block : Nat × Nat) : Block :=
  let place (range : Nat × Nat) : Option Location := some (.ofOffsets range.1 range.2 "<input>")
  .mk [.expression (.functionCall "f" [.literal ⟨.string, value, some .empty, place literal⟩] (place call))]
    (place block)

/-- The string gains blanks when it is printed, and again when the new text is printed. -/
theorem print_unstable_spanning :
    ∃ block found, (parse spanning ⟨false, "<input>"⟩).block = some block
      ∧ block.print? = some spanningPrinted
      ∧ (parse spanningPrinted ⟨false, "<input>"⟩).block = some found
      ∧ found.withoutLocations ≠ block.withoutLocations ∧ found.print? ≠ some spanningPrinted := by
  have first : (parse spanning ⟨false, "<input>"⟩).block
      = some (stringCall "\\\n" (4, 8) (2, 9) (0, 11)) := by cbv
  have second : (parse spanningPrinted ⟨false, "<input>"⟩).block
      = some (stringCall "\\\n    " (8, 16) (6, 17) (0, 19)) := by cbv
  have printed : (stringCall "\\\n" (4, 8) (2, 9) (0, 11)).print? = some spanningPrinted := by rfl
  have changed : (stringCall "\\\n    " (8, 16) (6, 17) (0, 19)).print? ≠ some spanningPrinted := by decide
  refine ⟨_, _, first, printed, second, fun same => ?_, changed⟩
  exact changed ((Block.print?_congr same).trans printed)

end ContractAsm.Ir

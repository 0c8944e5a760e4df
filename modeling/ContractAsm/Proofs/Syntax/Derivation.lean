import ContractAsm.Proofs.Syntax.Lexemes

/-!
# A tree is derived from its lexemes

Tokens with the lexemes of a readable tree derive a tree that differs from it in its
locations alone. The grammar is followed constructor by constructor; where it puts a list
behind commas, the tokens are cut as the lexemes are joined.
-/

namespace ContractAsm.Ir

open Grammar

variable {dialect : Dialect}

/-! ## Types and names -/

theorem types_derived {type : Option Text} (h : dialect.Types type) {tokens : List Token}
    (spelled : tokens.map Token.lexeme = typeLexemes type) :
    ∃ name, type = some name ∧ DerivesType dialect tokens name := by
  cases type with
  | none => exact h.elim
  | some type =>
    refine ⟨type, rfl, ?_⟩
    rw [Dialect.Types] at h
    rw [typeLexemes] at spelled
    by_cases mode : dialect.typed = true
    · rw [if_pos mode] at h
      have some : ¬ type.isEmpty = true := by
        obtain ⟨first, rest, units, -⟩ := h.word
        rw [Text.isEmpty, units]
        exact Bool.false_ne_true
      rw [if_neg some] at spelled
      obtain ⟨colon, _, rfl, colonMark, spelled⟩ := List.map_eq_cons_iff.mp spelled
      obtain ⟨name, _, rfl, typeName, spelled⟩ := List.map_eq_cons_iff.mp spelled
      obtain rfl := List.map_eq_nil_iff.mp spelled
      exact .typed mode colonMark typeName
    · rw [if_neg mode] at h
      subst h
      obtain rfl := List.map_eq_nil_iff.mp spelled
      exact .untyped (Bool.eq_false_iff.mpr mode)

theorem literal_derived {literal : Literal} (h : LiteralReadable dialect literal) {tokens : List Token}
    (spelled : tokens.map Token.lexeme = literalLexemes literal) :
    ∃ location, DerivesLiteral dialect tokens { literal with location := location } := by
  obtain ⟨kind, value, type, location⟩ := literal
  obtain ⟨valid, typed⟩ := h
  obtain ⟨token, rest, rfl, lexeme, spelled⟩ := List.map_eq_cons_iff.mp spelled
  obtain ⟨name, rfl, typing⟩ := types_derived typed spelled
  refine ⟨_, .mk ?_ typing⟩
  rw [lexeme]
  cases kind with
  | number => rfl
  | string => rfl
  | bool => rcases valid with rfl | rfl <;> rfl

theorem typedName_derived {declared : TypedName} (h : dialect.Types declared.type) {tokens : List Token}
    (spelled : tokens.map Token.lexeme = .identifier declared.name :: typeLexemes declared.type) :
    DerivesTypedName dialect tokens declared := by
  obtain ⟨token, rest, rfl, ident, spelled⟩ := List.map_eq_cons_iff.mp spelled
  obtain ⟨name, type⟩ := declared
  obtain ⟨type, rfl, typing⟩ := types_derived h spelled
  exact .mk ident typing

theorem furtherTypedNames_derived {names : List TypedName} (h : NamesReadable dialect names)
    {tokens : List Token}
    (spelled : tokens.map Token.lexeme
      = behindCommas (names.map fun declared => .identifier declared.name :: typeLexemes declared.type)) :
    DerivesFurtherTypedNames dialect tokens names := by
  induction names generalizing tokens with
  | nil =>
    obtain rfl := List.map_eq_nil_iff.mp spelled
    exact .none
  | cons declared rest ih =>
    obtain ⟨comma, tokens, rfl, commaMark, spelled⟩ := List.map_eq_cons_iff.mp spelled
    obtain ⟨head, tail, rfl, first, spelled⟩ := List.map_eq_append_iff.mp spelled
    exact .some commaMark (typedName_derived (h declared List.mem_cons_self).2 first)
      (ih (fun other member => h other (List.mem_cons_of_mem _ member)) spelled)

theorem typedNames_derived {names : List TypedName} (some : names ≠ []) (h : NamesReadable dialect names)
    {tokens : List Token} (spelled : tokens.map Token.lexeme = nameLexemes names) :
    DerivesTypedNames dialect tokens names := by
  cases names with
  | nil => exact (some rfl).elim
  | cons declared rest =>
    obtain ⟨head, tail, rfl, first, spelled⟩ := List.map_eq_append_iff.mp spelled
    exact .mk (typedName_derived (h declared List.mem_cons_self).2 first)
      (furtherTypedNames_derived (fun other member => h other (List.mem_cons_of_mem _ member)) spelled)

theorem parameters_derived {names : List TypedName} (h : NamesReadable dialect names) {tokens : List Token}
    (spelled : tokens.map Token.lexeme = nameLexemes names) : DerivesParameters dialect tokens names := by
  cases names with
  | nil =>
    obtain rfl := List.map_eq_nil_iff.mp spelled
    exact .none
  | cons declared rest => exact .some (typedNames_derived (List.cons_ne_nil _ _) h spelled)

theorem results_derived {names : List TypedName} (h : NamesReadable dialect names) {tokens : List Token}
    (spelled : tokens.map Token.lexeme = resultLexemes names) : DerivesResults dialect tokens names := by
  cases names with
  | nil =>
    obtain rfl := List.map_eq_nil_iff.mp spelled
    exact .none
  | cons declared rest =>
    obtain ⟨arrow, tokens, rfl, arrowMark, spelled⟩ := List.map_eq_cons_iff.mp spelled
    exact .some arrowMark (typedNames_derived (List.cons_ne_nil _ _) h spelled)

theorem furtherNames_derived {names : List Text} {tokens : List Token}
    (spelled : tokens.map Token.lexeme = behindCommas (names.map fun name => [.identifier name])) :
    DerivesFurtherNames tokens names := by
  induction names generalizing tokens with
  | nil =>
    obtain rfl := List.map_eq_nil_iff.mp spelled
    exact .none
  | cons name rest ih =>
    obtain ⟨comma, tokens, rfl, commaMark, spelled⟩ := List.map_eq_cons_iff.mp spelled
    obtain ⟨token, tokens, rfl, ident, spelled⟩ := List.map_eq_cons_iff.mp spelled
    exact .some commaMark ident (ih spelled)

/-! ## Expressions -/

/-- The tokens derive an expression that differs in its locations alone. -/
def Expression.Derived (dialect : Dialect) (expression : Expression) (tokens : List Token) : Prop :=
  ∃ found, DerivesExpression dialect tokens found ∧
    found.withoutLocations = expression.withoutLocations

mutual

theorem Expression.derived {expression : Expression} (h : expression.Readable dialect) {tokens : List Token}
    (spelled : tokens.map Token.lexeme = expression.lexemes) : expression.Derived dialect tokens := by
  match expression, h with
  | .literal literal, h =>
    obtain ⟨location, derived⟩ := literal_derived h spelled
    exact ⟨_, .literal derived, rfl⟩
  | .identifier name location, h =>
    obtain ⟨token, rest, rfl, ident, spelled⟩ := List.map_eq_cons_iff.mp spelled
    obtain rfl := List.map_eq_nil_iff.mp spelled
    exact ⟨_, .identifier ident, rfl⟩
  | .functionCall name arguments location, ⟨_, readable⟩ =>
    obtain ⟨token, _, rfl, ident, spelled⟩ := List.map_eq_cons_iff.mp spelled
    obtain ⟨opening, _, rfl, openMark, spelled⟩ := List.map_eq_cons_iff.mp spelled
    obtain ⟨inner, _, rfl, list, spelled⟩ := List.map_eq_append_iff.mp spelled
    obtain ⟨closing, _, rfl, closeMark, spelled⟩ := List.map_eq_cons_iff.mp spelled
    obtain rfl := List.map_eq_nil_iff.mp spelled
    obtain ⟨found, derived, same⟩ := arguments_derived readable list
    exact ⟨_, .call ident openMark derived closeMark, by simp only [Expression.withoutLocations, same]⟩

theorem arguments_derived {arguments : List Expression} (h : ReadableEach dialect arguments)
    {tokens : List Token} (spelled : tokens.map Token.lexeme = separated (lexemesEach arguments)) :
    ∃ found, DerivesArguments dialect tokens found ∧
      withoutLocationsEach found = withoutLocationsEach arguments := by
  match arguments, h with
  | [], _ =>
    obtain rfl := List.map_eq_nil_iff.mp spelled
    exact ⟨[], .none, rfl⟩
  | expression :: rest, ⟨first, others⟩ =>
    obtain ⟨head, tail, rfl, spelledHead, spelled⟩ := List.map_eq_append_iff.mp spelled
    obtain ⟨found, derived, same⟩ := Expression.derived first spelledHead
    obtain ⟨further, list, equal⟩ := furtherArguments_derived others spelled
    exact ⟨_, .some derived list, by simp only [withoutLocationsEach, same, equal]⟩

theorem furtherArguments_derived {arguments : List Expression} (h : ReadableEach dialect arguments)
    {tokens : List Token} (spelled : tokens.map Token.lexeme = behindCommas (lexemesEach arguments)) :
    ∃ found, DerivesFurtherArguments dialect tokens found ∧
      withoutLocationsEach found = withoutLocationsEach arguments := by
  match arguments, h with
  | [], _ =>
    obtain rfl := List.map_eq_nil_iff.mp spelled
    exact ⟨[], .none, rfl⟩
  | expression :: rest, ⟨first, others⟩ =>
    obtain ⟨comma, _, rfl, commaMark, spelled⟩ := List.map_eq_cons_iff.mp spelled
    obtain ⟨head, tail, rfl, spelledHead, spelled⟩ := List.map_eq_append_iff.mp spelled
    obtain ⟨found, derived, same⟩ := Expression.derived first spelledHead
    obtain ⟨further, list, equal⟩ := furtherArguments_derived others spelled
    exact ⟨_, .some commaMark derived list, by simp only [withoutLocationsEach, same, equal]⟩

end

theorem eq_call_of_withoutLocations {found : Expression} {name : Text} {arguments : List Expression}
    {location : Option Location}
    (same : found.withoutLocations
      = (Expression.functionCall name arguments location).withoutLocations) :
    ∃ others place, found = .functionCall name others place := by
  cases found with
  | functionCall found others place =>
    injection same with same
    subst same
    exact ⟨others, place, rfl⟩
  | literal => cases same
  | identifier => cases same
  | unrecognised => cases same

/-! ## Statements -/

theorem variableDeclaration_derived {names : List TypedName} {value : Option Expression}
    {location : Option Location} (h : (Statement.variableDeclaration names value location).Readable dialect)
    {tokens : List Token}
    (spelled : tokens.map Token.lexeme = (Statement.variableDeclaration names value location).lexemes) :
    ∃ found, DerivesStatement dialect tokens found ∧
      found.withoutLocations = (Statement.variableDeclaration names value location).withoutLocations := by
  cases value with
  | none =>
    obtain ⟨nonempty, readable⟩ := h
    obtain ⟨word, _, rfl, keyword, spelled⟩ := List.map_eq_cons_iff.mp spelled
    exact ⟨_, .declaration keyword (typedNames_derived nonempty readable spelled), rfl⟩
  | some value =>
    obtain ⟨nonempty, readable, right⟩ := h
    obtain ⟨word, _, rfl, keyword, spelled⟩ := List.map_eq_cons_iff.mp spelled
    obtain ⟨list, _, rfl, spelledNames, spelled⟩ := List.map_eq_append_iff.mp spelled
    obtain ⟨mark, _, rfl, assignMark, spelled⟩ := List.map_eq_cons_iff.mp spelled
    obtain ⟨found, derived, same⟩ := Expression.derived right spelled
    exact ⟨_, .initialisation keyword (typedNames_derived nonempty readable spelledNames)
      assignMark derived, by simp only [Statement.withoutLocations, Option.map_some, same]⟩

theorem assignment_derived {names : List Text} {value : Expression} {location : Option Location}
    (h : (Statement.assignment names value location).Readable dialect) {tokens : List Token}
    (spelled : tokens.map Token.lexeme = (Statement.assignment names value location).lexemes) :
    ∃ found, DerivesStatement dialect tokens found ∧
      found.withoutLocations = (Statement.assignment names value location).withoutLocations := by
  obtain ⟨nonempty, _, right⟩ := h
  obtain ⟨name, names, rfl⟩ := List.exists_cons_of_ne_nil nonempty
  obtain ⟨list, _, rfl, spelledNames, spelled⟩ := List.map_eq_append_iff.mp spelled
  obtain ⟨mark, _, rfl, assignMark, spelled⟩ := List.map_eq_cons_iff.mp spelled
  obtain ⟨found, derived, same⟩ := Expression.derived right spelled
  obtain ⟨first, _, rfl, ident, spelledNames⟩ := List.map_eq_cons_iff.mp spelledNames
  exact ⟨_, .assignment ident (furtherNames_derived spelledNames) assignMark derived,
    by simp only [Statement.withoutLocations, same]⟩

mutual

theorem Block.derived {block : Block} (h : block.Readable dialect) {tokens : List Token}
    (spelled : tokens.map Token.lexeme = block.lexemes) :
    ∃ found, DerivesBlock dialect tokens found ∧ found.withoutLocations = block.withoutLocations := by
  match block, h with
  | .mk statements location _, ⟨rfl, readable⟩ =>
    obtain ⟨opening, _, rfl, openMark, spelled⟩ := List.map_eq_cons_iff.mp spelled
    obtain ⟨inner, _, rfl, list, spelled⟩ := List.map_eq_append_iff.mp spelled
    obtain ⟨closing, _, rfl, closeMark, spelled⟩ := List.map_eq_cons_iff.mp spelled
    obtain rfl := List.map_eq_nil_iff.mp spelled
    obtain ⟨found, derived, same⟩ := statements_derived readable list
    exact ⟨_, .braces openMark derived closeMark, by simp only [Block.withoutLocations, same]⟩

theorem statements_derived {statements : List Statement} (h : StatementsReadable dialect statements)
    {tokens : List Token} (spelled : tokens.map Token.lexeme = statementsLexemes statements) :
    ∃ found, DerivesStatements dialect tokens found ∧
      statementsWithoutLocations found = statementsWithoutLocations statements := by
  match statements, h with
  | [], _ =>
    obtain rfl := List.map_eq_nil_iff.mp spelled
    exact ⟨[], .none, rfl⟩
  | statement :: rest, ⟨first, others⟩ =>
    obtain ⟨head, tail, rfl, spelledHead, spelled⟩ := List.map_eq_append_iff.mp spelled
    obtain ⟨found, derived, same⟩ := Statement.derived first spelledHead
    obtain ⟨further, list, equal⟩ := statements_derived others spelled
    exact ⟨_, .some derived list, by simp only [statementsWithoutLocations, same, equal]⟩

theorem Statement.derived {statement : Statement} (h : statement.Readable dialect) {tokens : List Token}
    (spelled : tokens.map Token.lexeme = statement.lexemes) :
    ∃ found, DerivesStatement dialect tokens found ∧
      found.withoutLocations = statement.withoutLocations := by
  cases statement with
  | expression expression =>
    cases expression with
    | functionCall name arguments location =>
      obtain ⟨found, derived, same⟩ := Expression.derived h spelled
      obtain ⟨others, place, rfl⟩ := eq_call_of_withoutLocations same
      exact ⟨_, .call derived, by simp only [Statement.withoutLocations, same]⟩
    | literal | identifier | unrecognised => exact h.elim
  | variableDeclaration => exact variableDeclaration_derived h spelled
  | assignment => exact assignment_derived h spelled
  | functionDefinition name parameters results body location =>
    obtain ⟨_, taken, given, inside⟩ := h
    obtain ⟨word, _, rfl, keyword, spelled⟩ := List.map_eq_cons_iff.mp spelled
    obtain ⟨ident, _, rfl, named, spelled⟩ := List.map_eq_cons_iff.mp spelled
    obtain ⟨opening, _, rfl, openMark, spelled⟩ := List.map_eq_cons_iff.mp spelled
    obtain ⟨inner, _, rfl, spelledParameters, spelled⟩ := List.map_eq_append_iff.mp spelled
    obtain ⟨closing, _, rfl, closeMark, spelled⟩ := List.map_eq_cons_iff.mp spelled
    obtain ⟨returned, _, rfl, spelledResults, spelled⟩ := List.map_eq_append_iff.mp spelled
    obtain ⟨found, derived, same⟩ := Block.derived inside spelled
    exact ⟨_, .functionDefinition keyword named openMark (parameters_derived taken spelledParameters)
      closeMark (results_derived given spelledResults) derived,
      by simp only [Statement.withoutLocations, same]⟩
  | switch expression cases location =>
    obtain ⟨tested, nonempty, branches⟩ := h
    obtain ⟨word, _, rfl, keyword, spelled⟩ := List.map_eq_cons_iff.mp spelled
    obtain ⟨before, _, rfl, spelledExpression, spelled⟩ := List.map_eq_append_iff.mp spelled
    obtain ⟨found, derived, same⟩ := Expression.derived tested spelledExpression
    obtain ⟨further, list, equal⟩ := cases_derived branches spelled
    have remains : further ≠ [] := by
      rintro rfl
      cases cases with
      | nil => exact nonempty rfl
      | cons => cases equal
    exact ⟨_, .switch keyword derived list remains,
      by simp only [Statement.withoutLocations, same, equal]⟩
  | ifThen condition body location =>
    obtain ⟨tested, inside⟩ := h
    obtain ⟨word, _, rfl, keyword, spelled⟩ := List.map_eq_cons_iff.mp spelled
    obtain ⟨before, _, rfl, spelledCondition, spelled⟩ := List.map_eq_append_iff.mp spelled
    obtain ⟨found, derived, same⟩ := Expression.derived tested spelledCondition
    obtain ⟨block, braces, equal⟩ := Block.derived inside spelled
    exact ⟨_, .ifThen keyword derived braces, by simp only [Statement.withoutLocations, same, equal]⟩
  | forLoop pre condition post body location =>
    obtain ⟨prepared, tested, advanced, inside⟩ := h
    obtain ⟨word, _, rfl, keyword, spelled⟩ := List.map_eq_cons_iff.mp spelled
    obtain ⟨before, _, rfl, spelledPre, spelled⟩ := List.map_eq_append_iff.mp spelled
    obtain ⟨test, _, rfl, spelledCondition, spelled⟩ := List.map_eq_append_iff.mp spelled
    obtain ⟨behind, _, rfl, spelledPost, spelled⟩ := List.map_eq_append_iff.mp spelled
    obtain ⟨first, derivedPre, samePre⟩ := Block.derived prepared spelledPre
    obtain ⟨found, derived, same⟩ := Expression.derived tested spelledCondition
    obtain ⟨second, derivedPost, samePost⟩ := Block.derived advanced spelledPost
    obtain ⟨third, derivedBody, sameBody⟩ := Block.derived inside spelled
    exact ⟨_, .forLoop keyword derivedPre derived derivedPost derivedBody,
      by simp only [Statement.withoutLocations, samePre, same, samePost, sameBody]⟩
  | breakLoop location =>
    obtain ⟨word, _, rfl, keyword, spelled⟩ := List.map_eq_cons_iff.mp spelled
    obtain rfl := List.map_eq_nil_iff.mp spelled
    exact ⟨_, .breakLoop keyword, rfl⟩
  | continueLoop location =>
    obtain ⟨word, _, rfl, keyword, spelled⟩ := List.map_eq_cons_iff.mp spelled
    obtain rfl := List.map_eq_nil_iff.mp spelled
    exact ⟨_, .continueLoop keyword, rfl⟩
  | block block =>
    obtain ⟨found, derived, same⟩ := Block.derived h spelled
    exact ⟨_, .block derived, by simp only [Statement.withoutLocations, same]⟩
  | case | inlineAssembly | unrecognised => exact h.elim

theorem cases_derived {cases : List Case} (h : CasesReadable dialect cases) {tokens : List Token}
    (spelled : tokens.map Token.lexeme = casesLexemes cases) :
    ∃ found, DerivesCases dialect tokens found ∧
      casesWithoutLocations found = casesWithoutLocations cases := by
  match cases with
  | [] =>
    obtain rfl := List.map_eq_nil_iff.mp spelled
    exact ⟨[], .none, rfl⟩
  | .mk none body location :: _ =>
    obtain ⟨inside, rfl⟩ := h
    rw [casesLexemes, casesLexemes, List.append_nil] at spelled
    obtain ⟨word, _, rfl, keyword, spelled⟩ := List.map_eq_cons_iff.mp spelled
    obtain ⟨block, braces, equal⟩ := Block.derived inside spelled
    exact ⟨_, .default keyword braces,
      by simp only [casesWithoutLocations, Case.withoutLocations, Option.map_none, equal]⟩
  | .mk (some (.literal value)) body location :: rest =>
    obtain ⟨valid, inside, others⟩ := h
    rw [casesLexemes, Case.lexemes, List.cons_append, List.append_assoc] at spelled
    obtain ⟨word, _, rfl, keyword, spelled⟩ := List.map_eq_cons_iff.mp spelled
    obtain ⟨before, _, rfl, spelledValue, spelled⟩ := List.map_eq_append_iff.mp spelled
    obtain ⟨inner, _, rfl, spelledBody, spelled⟩ := List.map_eq_append_iff.mp spelled
    obtain ⟨place, derived⟩ := literal_derived valid spelledValue
    obtain ⟨block, braces, equal⟩ := Block.derived inside spelledBody
    obtain ⟨further, list, same⟩ := cases_derived others spelled
    exact ⟨_, .case keyword derived braces list,
      by simp only [casesWithoutLocations, Case.withoutLocations, Expression.withoutLocations,
        Option.map_some, equal, same]⟩
  | .mk (some (.identifier ..)) .. :: _ | .mk (some (.functionCall ..)) .. :: _
  | .mk (some (.unrecognised ..)) .. :: _ | .other .. :: _ => exact h.elim

end

end ContractAsm.Ir

import ContractAsm.Proofs.Lexical.Annotations
import ContractAsm.Proofs.Syntax.Acceptance
import ContractAsm.Proofs.Syntax.Lexemes

/-!
# Both dialects read one language

The grammar of the untyped dialect derives what the typed one does, but for the annotations:
each derivation is followed constructor by constructor while the annotations are taken out of
its tokens. Locations move with the tokens in front of an annotation and end earlier, so trees
are compared without them.
-/

namespace ContractAsm

/-! ## Trees without types -/

def Literal.untyped (literal : Literal) : Literal :=
  { literal with type := literal.type.map fun _ => .empty }

def TypedName.untyped (declared : TypedName) : TypedName :=
  { declared with type := declared.type.map fun _ => .empty }

namespace Ir

mutual

def Expression.untyped : Expression → Expression
  | .literal literal => .literal literal.untyped
  | .identifier name location => .identifier name location
  | .functionCall name arguments location => .functionCall name (untypedEach arguments) location
  | .unrecognised node => .unrecognised node

def untypedEach : List Expression → List Expression
  | [] => []
  | expression :: rest => expression.untyped :: untypedEach rest

end

mutual

/-- A statement with the empty type for every type. What inline assembly holds is kept; none
is ever read. -/
def Statement.untyped : Statement → Statement
  | .expression expression => .expression expression.untyped
  | .variableDeclaration names value location =>
      .variableDeclaration (names.map TypedName.untyped) (value.map Expression.untyped) location
  | .assignment names value location => .assignment names value.untyped location
  | .functionDefinition name parameters results body location =>
      .functionDefinition name (parameters.map TypedName.untyped) (results.map TypedName.untyped)
        body.untyped location
  | .case case => .case case.untyped
  | .switch expression cases location => .switch expression.untyped (casesUntyped cases) location
  | .ifThen condition body location => .ifThen condition.untyped body.untyped location
  | .forLoop pre condition post body location =>
      .forLoop pre.untyped condition.untyped post.untyped body.untyped location
  | .breakLoop location => .breakLoop location
  | .continueLoop location => .continueLoop location
  | .block block => .block block.untyped
  | .inlineAssembly operations location => .inlineAssembly operations location
  | .unrecognised node => .unrecognised node

def Case.untyped : Case → Case
  | .mk value body location => .mk (value.map Expression.untyped) body.untyped location
  | .other statement => .other statement.untyped

def Block.untyped : Block → Block
  | .mk statements location kind => .mk (statementsUntyped statements) location kind

def statementsUntyped : List Statement → List Statement
  | [] => []
  | statement :: rest => statement.untyped :: statementsUntyped rest

def casesUntyped : List Case → List Case
  | [] => []
  | case :: rest => case.untyped :: casesUntyped rest

end

open Grammar Token

/-! ## Types and names -/

section

variable {typed untyped : Dialect} {tokens : List Token}

theorem Grammar.DerivesType.erased (modes : typed.typed = true ∧ untyped.typed = false) {type : Text}
    (derived : DerivesType typed tokens type) :
    Erases tokens [] ∧ DerivesType untyped [] .empty := by
  cases derived with
  | typed _ colonMark typeName => exact ⟨.drop colonMark typeName .nil, .untyped modes.2⟩
  | untyped mode =>
    rw [modes.1] at mode
    contradiction

theorem Grammar.DerivesTypedName.erased (modes : typed.typed = true ∧ untyped.typed = false) {declared : TypedName}
    (derived : DerivesTypedName typed tokens declared) :
    ∃ kept, Erases tokens kept ∧ DerivesTypedName untyped kept declared.untyped := by
  cases derived with
  | mk ident typing =>
    obtain ⟨erases, derives⟩ := typing.erased modes
    exact ⟨_, .name ident erases, .mk ident derives⟩

theorem Grammar.DerivesFurtherTypedNames.erased (modes : typed.typed = true ∧ untyped.typed = false) {names : List TypedName}
    (derived : DerivesFurtherTypedNames typed tokens names) :
    ∃ kept, Erases tokens kept ∧ DerivesFurtherTypedNames untyped kept (names.map TypedName.untyped) := by
  induction derived with
  | none => exact ⟨[], .nil, .none⟩
  | some commaMark head _ ih =>
    obtain ⟨first, erasesFirst, derivesFirst⟩ := head.erased modes
    obtain ⟨rest, erasesRest, derivesRest⟩ := ih
    exact ⟨_, .mark commaMark nofun (erasesFirst.append erasesRest),
      .some commaMark derivesFirst derivesRest⟩

theorem Grammar.DerivesTypedNames.erased (modes : typed.typed = true ∧ untyped.typed = false) {names : List TypedName}
    (derived : DerivesTypedNames typed tokens names) :
    ∃ kept, Erases tokens kept ∧ DerivesTypedNames untyped kept (names.map TypedName.untyped) := by
  cases derived with
  | mk head tail =>
    obtain ⟨first, erasesFirst, derivesFirst⟩ := head.erased modes
    obtain ⟨rest, erasesRest, derivesRest⟩ := tail.erased modes
    exact ⟨_, erasesFirst.append erasesRest, .mk derivesFirst derivesRest⟩

theorem Grammar.DerivesParameters.erased (modes : typed.typed = true ∧ untyped.typed = false) {names : List TypedName}
    (derived : DerivesParameters typed tokens names) :
    ∃ kept, Erases tokens kept ∧ DerivesParameters untyped kept (names.map TypedName.untyped) := by
  cases derived with
  | none => exact ⟨[], .nil, .none⟩
  | some list =>
    obtain ⟨kept, erases, derives⟩ := list.erased modes
    exact ⟨kept, erases, .some derives⟩

theorem Grammar.DerivesResults.erased (modes : typed.typed = true ∧ untyped.typed = false) {names : List TypedName}
    (derived : DerivesResults typed tokens names) :
    ∃ kept, Erases tokens kept ∧ DerivesResults untyped kept (names.map TypedName.untyped) := by
  cases derived with
  | none => exact ⟨[], .nil, .none⟩
  | some arrowMark list =>
    obtain ⟨kept, erases, derives⟩ := list.erased modes
    exact ⟨_, .mark arrowMark nofun erases, .some arrowMark derives⟩

theorem Grammar.DerivesFurtherNames.erased {names : List Text} (derived : DerivesFurtherNames tokens names) :
    Erases tokens tokens := by
  induction derived with
  | none => exact .nil
  | some commaMark ident _ ih => exact .mark commaMark nofun (.name ident ih)

/-! ## Expressions -/

theorem noColon_of_literal {token : Token} {kind : Literal.Kind} {value : Text}
    (lexeme : Parser.literalOf? token.lexeme = some (kind, value)) :
    token.lexeme ≠ .punctuation .colon := by
  intro colon
  rw [colon] at lexeme
  contradiction

theorem Grammar.DerivesLiteral.erased (modes : typed.typed = true ∧ untyped.typed = false) {value : Literal}
    (derived : DerivesLiteral typed tokens value) :
    ∃ kept found, Erases tokens kept ∧ DerivesLiteral untyped kept found
      ∧ { found with location := none } = { value.untyped with location := none } := by
  cases derived with
  | mk lexeme typing =>
    obtain ⟨erases, derives⟩ := typing.erased modes
    exact ⟨_, _, .keep (noColon_of_literal lexeme) erases, .mk lexeme derives, rfl⟩

mutual

theorem Grammar.DerivesExpression.erased (modes : typed.typed = true ∧ untyped.typed = false) {tokens : List Token} {expression : Expression}
    (derived : DerivesExpression typed tokens expression) :
    ∃ kept found, Erases tokens kept ∧ DerivesExpression untyped kept found
      ∧ found.withoutLocations = expression.untyped.withoutLocations := by
  cases derived with
  | literal derived =>
    obtain ⟨kept, found, erases, derives, same⟩ := derived.erased modes
    exact ⟨kept, _, erases, .literal derives, congrArg Expression.literal same⟩
  | identifier ident => exact ⟨_, _, .name ident .nil, .identifier ident, rfl⟩
  | call ident openMark list closeMark =>
    obtain ⟨kept, found, erases, derives, same⟩ := DerivesArguments.erased modes list
    refine ⟨_, _, .name ident (.mark openMark nofun (erases.append (.mark closeMark nofun .nil))),
      .call ident openMark derives closeMark, ?_⟩
    rw [Expression.untyped, Expression.withoutLocations, Expression.withoutLocations, same]

theorem Grammar.DerivesArguments.erased (modes : typed.typed = true ∧ untyped.typed = false) {tokens : List Token} {arguments : List Expression}
    (derived : DerivesArguments typed tokens arguments) :
    ∃ kept found, Erases tokens kept ∧ DerivesArguments untyped kept found
      ∧ withoutLocationsEach found = withoutLocationsEach (untypedEach arguments) := by
  cases derived with
  | none => exact ⟨[], [], .nil, .none, rfl⟩
  | some head tail =>
    obtain ⟨_, first, erasesFirst, derivesFirst, sameFirst⟩ := DerivesExpression.erased modes head
    obtain ⟨_, rest, erasesRest, derivesRest, sameRest⟩ :=
      DerivesFurtherArguments.erased modes tail
    refine ⟨_, first :: rest, erasesFirst.append erasesRest, .some derivesFirst derivesRest, ?_⟩
    rw [untypedEach, withoutLocationsEach, withoutLocationsEach, sameFirst, sameRest]

theorem Grammar.DerivesFurtherArguments.erased (modes : typed.typed = true ∧ untyped.typed = false) {tokens : List Token}
    {arguments : List Expression} (derived : DerivesFurtherArguments typed tokens arguments) :
    ∃ kept found, Erases tokens kept ∧ DerivesFurtherArguments untyped kept found
      ∧ withoutLocationsEach found = withoutLocationsEach (untypedEach arguments) := by
  cases derived with
  | none => exact ⟨[], [], .nil, .none, rfl⟩
  | some commaMark head tail =>
    obtain ⟨_, first, erasesFirst, derivesFirst, sameFirst⟩ := DerivesExpression.erased modes head
    obtain ⟨_, rest, erasesRest, derivesRest, sameRest⟩ :=
      DerivesFurtherArguments.erased modes tail
    refine ⟨_, first :: rest, .mark commaMark nofun (erasesFirst.append erasesRest),
      .some commaMark derivesFirst derivesRest, ?_⟩
    rw [untypedEach, withoutLocationsEach, withoutLocationsEach, sameFirst, sameRest]

end

/-! ## Statements -/

theorem isDefault_of_same {found case : Case}
    (same : found.withoutLocations = case.untyped.withoutLocations) : found.isDefault = case.isDefault := by
  cases case with
  | mk value body location =>
    cases found with
    | mk other inner place =>
      cases value with
      | none =>
        cases other with
        | none => rfl
        | some => injection same; contradiction
      | some =>
        cases other with
        | none => injection same; contradiction
        | some => rfl
    | other => contradiction
  | other statement =>
    cases found with
    | mk => contradiction
    | other => rfl

theorem length_defaultOnly {cases found : List Case}
    (same : casesWithoutLocations found = casesWithoutLocations (casesUntyped cases))
    (location other : Location) :
    (defaultOnly found (some other)).length = (defaultOnly cases (some location)).length := by
  match cases, found with
  | [], [] => rfl
  | [], _ :: _ => contradiction
  | _ :: _, [] => contradiction
  | [case], [only] =>
    injection same with same
    rw [defaultOnly, defaultOnly, isDefault_of_same same]
    cases case.isDefault with
    | true => rfl
    | false => rfl
  | [_], _ :: _ :: _ =>
    injection same
    contradiction
  | _ :: _ :: _, [_] =>
    injection same
    contradiction
  | _ :: _ :: _, _ :: _ :: _ => rfl

mutual

theorem Grammar.DerivesBlock.erased (modes : typed.typed = true ∧ untyped.typed = false)
    {tokens : List Token} {block : Block} (derived : DerivesBlock typed tokens block) :
    ∃ kept found, Erases tokens kept ∧ DerivesBlock untyped kept found
      ∧ found.withoutLocations = block.untyped.withoutLocations
      ∧ found.defaultOnlySwitches.length = block.defaultOnlySwitches.length := by
  cases derived with
  | braces openMark list closeMark =>
    obtain ⟨kept, found, erases, derives, same, warned⟩ := DerivesStatements.erased modes list
    refine ⟨_, _, .mark openMark nofun (erases.append (.mark closeMark nofun .nil)),
      .braces openMark derives closeMark, ?_, warned⟩
    rw [Block.untyped, Block.withoutLocations, Block.withoutLocations, same]

theorem Grammar.DerivesStatements.erased (modes : typed.typed = true ∧ untyped.typed = false)
    {tokens : List Token} {statements : List Statement}
    (derived : DerivesStatements typed tokens statements) :
    ∃ kept found, Erases tokens kept ∧ DerivesStatements untyped kept found
      ∧ statementsWithoutLocations found = statementsWithoutLocations (statementsUntyped statements)
      ∧ (statementsDefaultOnlySwitches found).length
        = (statementsDefaultOnlySwitches statements).length := by
  cases derived with
  | none => exact ⟨[], [], .nil, .none, rfl, rfl⟩
  | some head tail =>
    obtain ⟨_, first, erasesFirst, derivesFirst, sameFirst, warnedFirst⟩ :=
      DerivesStatement.erased modes head
    obtain ⟨_, rest, erasesRest, derivesRest, sameRest, warnedRest⟩ :=
      DerivesStatements.erased modes tail
    refine ⟨_, first :: rest, erasesFirst.append erasesRest, .some derivesFirst derivesRest, ?_, ?_⟩
    · rw [statementsUntyped, statementsWithoutLocations, statementsWithoutLocations, sameFirst, sameRest]
    · rw [statementsDefaultOnlySwitches, statementsDefaultOnlySwitches, List.length_append,
        List.length_append, warnedFirst, warnedRest]

theorem Grammar.DerivesStatement.erased (modes : typed.typed = true ∧ untyped.typed = false)
    {tokens : List Token} {statement : Statement} (derived : DerivesStatement typed tokens statement) :
    ∃ kept found, Erases tokens kept ∧ DerivesStatement untyped kept found
      ∧ found.withoutLocations = statement.untyped.withoutLocations
      ∧ found.defaultOnlySwitches.length = statement.defaultOnlySwitches.length := by
  cases derived with
  | block derived =>
    obtain ⟨kept, found, erases, derives, same, warned⟩ := DerivesBlock.erased modes derived
    exact ⟨kept, _, erases, .block derives, congrArg Statement.block same, warned⟩
  | functionDefinition keyword named openMark taken closeMark given derived =>
    obtain ⟨_, erasesTaken, derivesTaken⟩ := taken.erased modes
    obtain ⟨_, erasesGiven, derivesGiven⟩ := given.erased modes
    obtain ⟨_, found, erases, derives, same, warned⟩ := DerivesBlock.erased modes derived
    refine ⟨_, _, .word keyword (.name named (.mark openMark nofun
        (erasesTaken.append (.mark closeMark nofun (erasesGiven.append erases))))),
      .functionDefinition keyword named openMark derivesTaken closeMark derivesGiven derives, ?_, warned⟩
    rw [Statement.untyped, Statement.withoutLocations, Statement.withoutLocations, same]
  | declaration keyword list =>
    obtain ⟨_, erases, derives⟩ := list.erased modes
    exact ⟨_, _, .word keyword erases, .declaration keyword derives, rfl, rfl⟩
  | initialisation keyword list assignMark derived =>
    obtain ⟨_, erasesNames, derivesNames⟩ := list.erased modes
    obtain ⟨_, found, erases, derives, same⟩ := derived.erased modes
    refine ⟨_, _, .word keyword (erasesNames.append (.mark assignMark nofun erases)),
      .initialisation keyword derivesNames assignMark derives, ?_, rfl⟩
    rw [Statement.untyped, Statement.withoutLocations, Statement.withoutLocations, Option.map_some,
      Option.map_some, Option.map_some, same]
  | assignment ident list assignMark derived =>
    obtain ⟨_, found, erases, derives, same⟩ := derived.erased modes
    refine ⟨_, _, .name ident (list.erased.append (.mark assignMark nofun erases)),
      .assignment ident list assignMark derives, ?_, rfl⟩
    rw [Statement.untyped, Statement.withoutLocations, Statement.withoutLocations, same]
  | call derived =>
    obtain ⟨kept, found, erases, derives, same⟩ := derived.erased modes
    cases found with
    | functionCall name arguments location =>
      exact ⟨kept, _, erases, .call derives, congrArg Statement.expression same, rfl⟩
    | literal | identifier | unrecognised => contradiction
  | @switch _ _ _ _ cases keyword derived list some =>
    obtain ⟨_, value, erasesValue, derivesValue, sameValue⟩ := derived.erased modes
    obtain ⟨_, found, erases, derives, same, warned⟩ := DerivesCases.erased modes list
    have others : found ≠ [] := by
      rintro rfl
      cases cases with
      | nil => exact some rfl
      | cons => contradiction
    refine ⟨_, _, .word keyword (erasesValue.append erases), .switch keyword derivesValue derives others,
      ?_, ?_⟩
    · rw [Statement.untyped, Statement.withoutLocations, Statement.withoutLocations, sameValue, same]
    · rw [Statement.defaultOnlySwitches, Statement.defaultOnlySwitches, List.length_append,
        List.length_append, warned, length_defaultOnly same]
  | ifThen keyword tested derived =>
    obtain ⟨_, condition, erasesCondition, derivesCondition, sameCondition⟩ := tested.erased modes
    obtain ⟨_, found, erases, derives, same, warned⟩ := DerivesBlock.erased modes derived
    refine ⟨_, _, .word keyword (erasesCondition.append erases),
      .ifThen keyword derivesCondition derives, ?_, warned⟩
    rw [Statement.untyped, Statement.withoutLocations, Statement.withoutLocations, sameCondition, same]
  | forLoop keyword prepared tested advanced derived =>
    obtain ⟨_, pre, erasesPre, derivesPre, samePre, warnedPre⟩ := DerivesBlock.erased modes prepared
    obtain ⟨_, condition, erasesCondition, derivesCondition, sameCondition⟩ := tested.erased modes
    obtain ⟨_, post, erasesPost, derivesPost, samePost, warnedPost⟩ := DerivesBlock.erased modes advanced
    obtain ⟨_, found, erases, derives, same, warned⟩ := DerivesBlock.erased modes derived
    refine ⟨_, _, .word keyword (erasesPre.append (erasesCondition.append (erasesPost.append erases))),
      .forLoop keyword derivesPre derivesCondition derivesPost derives, ?_, ?_⟩
    · rw [Statement.untyped, Statement.withoutLocations, Statement.withoutLocations, samePre,
        sameCondition, samePost, same]
    · simp only [Statement.defaultOnlySwitches, List.length_append, warnedPre, warnedPost, warned]
  | breakLoop keyword => exact ⟨_, _, .word keyword .nil, .breakLoop keyword, rfl, rfl⟩
  | continueLoop keyword => exact ⟨_, _, .word keyword .nil, .continueLoop keyword, rfl, rfl⟩

theorem Grammar.DerivesCases.erased (modes : typed.typed = true ∧ untyped.typed = false)
    {tokens : List Token} {cases : List Case} (derived : DerivesCases typed tokens cases) :
    ∃ kept found, Erases tokens kept ∧ DerivesCases untyped kept found
      ∧ casesWithoutLocations found = casesWithoutLocations (casesUntyped cases)
      ∧ (casesDefaultOnlySwitches found).length = (casesDefaultOnlySwitches cases).length := by
  cases derived with
  | none => exact ⟨[], [], .nil, .none, rfl, rfl⟩
  | default keyword derived =>
    obtain ⟨_, found, erases, derives, same, warned⟩ := DerivesBlock.erased modes derived
    refine ⟨_, _, .word keyword erases, .default keyword derives, ?_, ?_⟩
    · simp only [casesUntyped, casesWithoutLocations, Case.untyped, Case.withoutLocations, Option.map_none,
        same]
    · simpa only [casesDefaultOnlySwitches, Case.defaultOnlySwitches, List.append_nil] using warned
  | case keyword tested derived tail =>
    obtain ⟨_, value, erasesValue, derivesValue, sameValue⟩ := tested.erased modes
    obtain ⟨_, found, erases, derives, same, warned⟩ := DerivesBlock.erased modes derived
    obtain ⟨_, others, erasesOthers, derivesOthers, sameOthers, warnedOthers⟩ :=
      DerivesCases.erased modes tail
    refine ⟨_, _, .word keyword (erasesValue.append (erases.append erasesOthers)),
      .case keyword derivesValue derives derivesOthers, ?_, ?_⟩
    · simp only [casesUntyped, casesWithoutLocations, Case.untyped, Case.withoutLocations, Option.map_some,
        Expression.untyped, Expression.withoutLocations, sameValue, same, sameOthers]
    · simp only [casesDefaultOnlySwitches, Case.defaultOnlySwitches, List.length_append, warned,
        warnedOthers]

end

end

/-! ## Texts -/

/-- How many of the findings are warnings. -/
def warningCount (diagnostics : List Diagnostic) : Nat :=
  diagnostics.countP fun diagnostic => diagnostic.severity = ("warning" : Text)

theorem warningCount_onlyDefaultCase (locations : List Location) :
    warningCount (locations.map .onlyDefaultCase) = locations.length := by
  have all : ∀ diagnostic ∈ locations.map Diagnostic.onlyDefaultCase,
      decide (diagnostic.severity = ("warning" : Text)) = true := by
    intro diagnostic member
    obtain ⟨location, -, rfl⟩ := List.mem_map.mp member
    exact decide_eq_true rfl
  rw [warningCount, List.countP_eq_length.mpr all, List.length_map]

/-- What is read in the typed dialect is read in the untyped one when the annotations are
overwritten: the same tree without its types, up to locations, and as many warnings. -/
theorem parse_withoutAnnotations {source : Text} {typed untyped : Dialect} {tree : Block}
    (annotated : typed.typed = true) (plain : untyped.typed = false)
    (read : (parse source typed).block = some tree) :
    ∃ found, (parse source.withoutAnnotations untyped).block = some found
      ∧ found.withoutLocations = tree.untyped.withoutLocations
      ∧ warningCount (parse source.withoutAnnotations untyped).diagnostics
        = warningCount (parse source typed).diagnostics := by
  obtain ⟨tokens, scanned, derived⟩ := derives_of_parse read
  obtain ⟨kept, found, erases, derives, same, warned⟩ := derived.erased ⟨annotated, plain⟩
  have parsed := parse_derived (scan_withoutAnnotations scanned erases) derives
  refine ⟨found, by rw [parsed], same, ?_⟩
  rw [parsed, parse_derived scanned derived, warningCount_onlyDefaultCase, warningCount_onlyDefaultCase,
    warned]

/-- Annotations behind names and literals, with a comment inside one, and a default alone. -/
def annotatedSource : Text :=
  "\x7b let a:u256, b : /* : */ u256 := f(1:u256) switch true:bool default \x7b\x7d \x7d"

theorem parse_withoutAnnotations_default :
    ∃ tree, (parse annotatedSource ⟨true, "a"⟩).block = some tree
      ∧ ∃ found, (parse annotatedSource.withoutAnnotations ⟨false, "b"⟩).block = some found
      ∧ found.withoutLocations = tree.untyped.withoutLocations
      ∧ warningCount (parse annotatedSource.withoutAnnotations ⟨false, "b"⟩).diagnostics
        = warningCount (parse annotatedSource ⟨true, "a"⟩).diagnostics := by
  have some : (parse annotatedSource ⟨true, "a"⟩).block.isSome = true := by decide +kernel
  obtain ⟨tree, read⟩ := Option.isSome_iff_exists.mp some
  exact ⟨tree, read, parse_withoutAnnotations rfl rfl read⟩

end Ir

end ContractAsm

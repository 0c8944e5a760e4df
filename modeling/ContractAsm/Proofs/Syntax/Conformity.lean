import ContractAsm.Proofs.Ir.Conformity
import ContractAsm.Proofs.Lexical.Ranges
import ContractAsm.Proofs.Syntax.Acceptance

/-!
# Blocks that are read conform

Whatever is derived from the tokens of a text conforms, if the text is not so long that offsets
in it are no whole numbers of a document any more. Each production gives its node what the law
of that node asks for.
-/

namespace ContractAsm

open Schema (Placed largestOffset)

/-! ## Offsets -/

/-- Both offsets of the token can stand in a document. -/
def Token.IsNear (token : Token) : Prop :=
  (token.start : Int) ≤ largestOffset ∧ (token.stop : Int) ≤ largestOffset

def AreNear (tokens : List Token) : Prop := ∀ token ∈ tokens, token.IsNear

theorem areNear_cons {token : Token} {rest : List Token} :
    AreNear (token :: rest) ↔ token.IsNear ∧ AreNear rest := List.forall_mem_cons

theorem areNear_append {first second : List Token} :
    AreNear (first ++ second) ↔ AreNear first ∧ AreNear second := List.forall_mem_append

theorem areNear_of_scan {source : Text} {tokens : List Token} (short : (source.length : Int) ≤ largestOffset)
    (scanned : Token.scan source = .ok tokens) : AreNear tokens := by
  intro token member
  have inside := (Token.scan_iff.mp scanned).within token member
  have length : source.units.length = source.length := rfl
  unfold Token.IsNear
  omega

namespace Ir

open Grammar

variable {dialect : Dialect}

theorem stopAfter_near {last : Nat} {tokens : List Token} (low : (last : Int) ≤ largestOffset)
    (near : AreNear tokens) : ((stopAfter last tokens : Nat) : Int) ≤ largestOffset := by
  induction tokens generalizing last with
  | nil => exact low
  | cons token rest ih =>
    obtain ⟨own, others⟩ := areNear_cons.mp near
    exact ih own.2 others

theorem placed_span (dialect : Dialect) {first : Token} {rest : List Token} (near : AreNear (first :: rest)) :
    Placed (some (span dialect first rest)) := by
  obtain ⟨own, others⟩ := areNear_cons.mp near
  exact Schema.placed_ofOffsets _ own.1 (stopAfter_near own.2 others)

/-! ## Types and names -/

theorem typedName_isTyped {tokens : List Token} {declared : TypedName}
    (derived : DerivesTypedName dialect tokens declared) : declared.IsTyped := by
  cases derived with
  | mk ident typed => exact ⟨_, rfl⟩

theorem furtherTypedNames_areTyped {tokens : List Token} {names : List TypedName}
    (derived : DerivesFurtherTypedNames dialect tokens names) : ∀ declared ∈ names, declared.IsTyped := by
  induction derived with
  | none => exact fun _ member => nomatch member
  | some commaMark head tail ih => exact List.forall_mem_cons.mpr ⟨typedName_isTyped head, ih⟩

theorem typedNames_areTyped {tokens : List Token} {names : List TypedName}
    (derived : DerivesTypedNames dialect tokens names) :
    names ≠ [] ∧ ∀ declared ∈ names, declared.IsTyped := by
  cases derived with
  | mk head tail =>
    exact ⟨List.cons_ne_nil _ _,
      List.forall_mem_cons.mpr ⟨typedName_isTyped head, furtherTypedNames_areTyped tail⟩⟩

theorem parameters_areTyped {tokens : List Token} {names : List TypedName}
    (derived : DerivesParameters dialect tokens names) : ∀ declared ∈ names, declared.IsTyped := by
  cases derived with
  | none => exact fun _ member => nomatch member
  | some list => exact (typedNames_areTyped list).2

theorem results_areTyped {tokens : List Token} {names : List TypedName}
    (derived : DerivesResults dialect tokens names) : ∀ declared ∈ names, declared.IsTyped := by
  cases derived with
  | none => exact fun _ member => nomatch member
  | some arrowMark list => exact (typedNames_areTyped list).2

/-! ## Expressions -/

theorem Grammar.DerivesLiteral.conforms {tokens : List Token} {value : Literal}
    (derived : DerivesLiteral dialect tokens value) (near : AreNear tokens) : value.Conforms := by
  cases derived with
  | mk lexeme typed => exact Literal.conforms (placed_span dialect near)

mutual

theorem Grammar.DerivesExpression.conforms {tokens : List Token} {expression : Expression}
    (derived : DerivesExpression dialect tokens expression) (near : AreNear tokens) :
    expression.Conforms := by
  cases derived with
  | literal derived => exact Expression.conforms_literal (derived.conforms near)
  | identifier ident => exact Expression.conforms_identifier (placed_span dialect near) _
  | call ident openMark list closeMark =>
    have placed := placed_span dialect near
    simp only [areNear_cons, areNear_append] at near
    obtain ⟨-, -, inside, -⟩ := near
    exact Expression.conforms_functionCall placed _ (DerivesArguments.conforms list inside)

theorem Grammar.DerivesArguments.conforms {tokens : List Token} {arguments : List Expression}
    (derived : DerivesArguments dialect tokens arguments) (near : AreNear tokens) :
    ∀ argument ∈ arguments, argument.Conforms := by
  cases derived with
  | none => exact fun _ member => nomatch member
  | some head tail =>
    obtain ⟨first, others⟩ := areNear_append.mp near
    exact List.forall_mem_cons.mpr
      ⟨DerivesExpression.conforms head first, DerivesFurtherArguments.conforms tail others⟩

theorem Grammar.DerivesFurtherArguments.conforms {tokens : List Token} {arguments : List Expression}
    (derived : DerivesFurtherArguments dialect tokens arguments) (near : AreNear tokens) :
    ∀ argument ∈ arguments, argument.Conforms := by
  cases derived with
  | none => exact fun _ member => nomatch member
  | some commaMark head tail =>
    simp only [areNear_cons, areNear_append] at near
    obtain ⟨-, first, others⟩ := near
    exact List.forall_mem_cons.mpr
      ⟨DerivesExpression.conforms head first, DerivesFurtherArguments.conforms tail others⟩

end

/-! ## Statements -/

mutual

theorem Grammar.DerivesBlock.conforms {tokens : List Token} {block : Block}
    (derived : DerivesBlock dialect tokens block) (near : AreNear tokens) : block.Conforms := by
  cases derived with
  | braces openMark list closeMark =>
    have placed := placed_span dialect near
    simp only [areNear_cons, areNear_append] at near
    obtain ⟨-, inside, -⟩ := near
    exact Block.conforms placed (DerivesStatements.conforms list inside)

theorem Grammar.DerivesStatements.conforms {tokens : List Token} {statements : List Statement}
    (derived : DerivesStatements dialect tokens statements) (near : AreNear tokens) :
    ∀ statement ∈ statements, statement.Conforms := by
  cases derived with
  | none => exact fun _ member => nomatch member
  | some head tail =>
    obtain ⟨first, others⟩ := areNear_append.mp near
    exact List.forall_mem_cons.mpr
      ⟨DerivesStatement.conforms head first, DerivesStatements.conforms tail others⟩

theorem Grammar.DerivesStatement.conforms {tokens : List Token} {statement : Statement}
    (derived : DerivesStatement dialect tokens statement) (near : AreNear tokens) :
    statement.Conforms := by
  cases derived with
  | block derived => exact Statement.conforms_block (DerivesBlock.conforms derived near)
  | functionDefinition keyword named openMark taken closeMark given derived =>
    have placed := placed_span dialect near
    simp only [areNear_cons, areNear_append] at near
    obtain ⟨-, -, -, -, -, -, inside⟩ := near
    exact Statement.conforms_functionDefinition placed _ (parameters_areTyped taken)
      (results_areTyped given) (DerivesBlock.conforms derived inside)
  | declaration keyword list =>
    obtain ⟨some, typed⟩ := typedNames_areTyped list
    exact Statement.conforms_variableDeclaration (placed_span dialect near) some typed nofun
  | initialisation keyword list assignMark derived =>
    have placed := placed_span dialect near
    simp only [areNear_cons, areNear_append] at near
    obtain ⟨-, -, -, right⟩ := near
    obtain ⟨some, typed⟩ := typedNames_areTyped list
    refine Statement.conforms_variableDeclaration placed some typed ?_
    rintro value ⟨⟩
    exact derived.conforms right
  | assignment ident list assignMark derived =>
    have placed := placed_span dialect near
    simp only [areNear_cons, areNear_append] at near
    obtain ⟨-, -, -, right⟩ := near
    exact Statement.conforms_assignment placed (List.cons_ne_nil _ _) (derived.conforms right)
  | call derived => exact Statement.conforms_expression (derived.conforms near)
  | switch keyword derived list some =>
    have placed := placed_span dialect near
    simp only [areNear_cons, areNear_append] at near
    obtain ⟨-, tested, branches⟩ := near
    exact Statement.conforms_switch placed (derived.conforms tested)
      (DerivesCases.conforms list branches)
  | ifThen keyword tested derived =>
    have placed := placed_span dialect near
    simp only [areNear_cons, areNear_append] at near
    obtain ⟨-, condition, inside⟩ := near
    exact Statement.conforms_ifThen placed (tested.conforms condition)
      (DerivesBlock.conforms derived inside)
  | forLoop keyword prepared tested advanced derived =>
    have placed := placed_span dialect near
    simp only [areNear_cons, areNear_append] at near
    obtain ⟨-, before, condition, behind, inside⟩ := near
    exact Statement.conforms_forLoop placed (DerivesBlock.conforms prepared before)
      (tested.conforms condition) (DerivesBlock.conforms advanced behind)
      (DerivesBlock.conforms derived inside)
  | breakLoop keyword => exact Statement.conforms_breakLoop (placed_span dialect near)
  | continueLoop keyword => exact Statement.conforms_continueLoop (placed_span dialect near)

theorem Grammar.DerivesCases.conforms {tokens : List Token} {cases : List Case}
    (derived : DerivesCases dialect tokens cases) (near : AreNear tokens) :
    ∀ case ∈ cases, case.Conforms := by
  cases derived with
  | none => exact fun _ member => nomatch member
  | default keyword derived =>
    have inside := DerivesBlock.conforms derived (areNear_cons.mp near).2
    exact List.forall_mem_singleton.mpr (Case.conforms_default (placed_span dialect near) inside)
  | case keyword tested derived tail =>
    simp only [areNear_cons, areNear_append] at near
    obtain ⟨word, value, inside, others⟩ := near
    have placed := placed_span dialect (areNear_cons.mpr ⟨word, areNear_append.mpr ⟨value, inside⟩⟩)
    exact List.forall_mem_cons.mpr
      ⟨Case.conforms_value placed (tested.conforms value) (DerivesBlock.conforms derived inside),
        DerivesCases.conforms tail others⟩

end

section

variable {source : Text} {tree : Block} (short : (source.length : Int) ≤ largestOffset)

include short

/-- A block that is read conforms. -/
theorem conforms_of_parse (read : (parse source dialect).block = some tree) : tree.Conforms := by
  obtain ⟨tokens, scanned, derived⟩ := derives_of_parse read
  exact derived.conforms (areNear_of_scan short scanned)

theorem statements_conform_of_parse (read : (parse source dialect).block = some tree) :
    ∀ statement ∈ tree.statements, statement.Conforms := by
  obtain ⟨tokens, scanned, derived⟩ := derives_of_parse read
  have near := areNear_of_scan short scanned
  cases derived with
  | braces openMark list closeMark =>
    simp only [areNear_cons, areNear_append] at near
    exact DerivesStatements.conforms list near.2.1

end

end Ir

end ContractAsm

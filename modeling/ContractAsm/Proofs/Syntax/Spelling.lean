import ContractAsm.Proofs.Lexical.Scanning
import ContractAsm.Proofs.Syntax.Lexemes

/-!
# A tree is written with its lexemes

The tokens that a tree is derived from have the lexemes of the tree, in their order. This is the
other direction of the derivation of a readable tree from its lexemes, and it needs of the tokens
only that no name is empty.
-/

namespace ContractAsm

namespace Token

def AreNamed (tokens : List Token) : Prop := ∀ token ∈ tokens, token.lexeme ≠ .identifier .empty

theorem areNamed_cons {token : Token} {rest : List Token} :
    AreNamed (token :: rest) ↔ token.lexeme ≠ .identifier .empty ∧ AreNamed rest := List.forall_mem_cons

theorem areNamed_append {first second : List Token} :
    AreNamed (first ++ second) ↔ AreNamed first ∧ AreNamed second := List.forall_mem_append

theorem AreNamed.subset {tokens fewer : List Token} (named : AreNamed tokens) (within : fewer ⊆ tokens) :
    AreNamed fewer := fun token member => named token (within member)

theorem Spells.ne_unnamed {lexeme : Lexeme} {word : List CodeUnit} (spelled : Spells lexeme word) :
    lexeme ≠ .identifier .empty := by
  cases spelled with
  | @word first rest =>
    unfold Lexeme.ofWord
    split
    · exact Lexeme.noConfusion
    · intro unnamed
      cases unnamed
  | decimal | hexadecimal | string | mark => exact Lexeme.noConfusion

theorem Splits.areNamed {input : List CodeUnit} {pos : Nat} {tokens : List Token}
    (splits : Splits input pos tokens) : AreNamed tokens := by
  intro token member
  obtain ⟨word, spelled⟩ := splits.spelled token member
  exact spelled.ne_unnamed

end Token

namespace Ir

open Grammar
open Token (AreNamed areNamed_cons areNamed_append)

variable {dialect : Dialect} {tokens : List Token}

/-! ## Types and names -/

theorem Grammar.DerivesType.lexemes {type : Text} (derived : DerivesType dialect tokens type)
    (named : AreNamed tokens) : tokens.map Token.lexeme = typeLexemes (some type) := by
  cases derived with
  | @typed colon name _ mode colonMark typeName =>
    have some : ¬ type.isEmpty = true := by
      intro empty
      have none : type = .empty := Text.ext (List.isEmpty_iff.mp empty)
      exact named name (by simp) (none ▸ typeName)
    rw [typeLexemes, if_neg some, List.map_cons, List.map_singleton, colonMark, typeName]
  | untyped mode => rfl

theorem Grammar.DerivesTypedName.lexemes {declared : TypedName}
    (derived : DerivesTypedName dialect tokens declared) (named : AreNamed tokens) :
    tokens.map Token.lexeme = .identifier declared.name :: typeLexemes declared.type := by
  cases derived with
  | mk ident typed => rw [List.map_cons, ident, typed.lexemes (areNamed_cons.mp named).2]

theorem Grammar.DerivesFurtherTypedNames.lexemes {names : List TypedName}
    (derived : DerivesFurtherTypedNames dialect tokens names) (named : AreNamed tokens) :
    tokens.map Token.lexeme
      = behindCommas (names.map fun declared => .identifier declared.name :: typeLexemes declared.type) := by
  induction derived with
  | none => rfl
  | some commaMark head tail ih =>
    obtain ⟨-, named⟩ := areNamed_cons.mp named
    obtain ⟨first, others⟩ := areNamed_append.mp named
    rw [List.map_cons, List.map_append, commaMark, head.lexemes first, ih others]
    rfl

theorem Grammar.DerivesTypedNames.lexemes {names : List TypedName}
    (derived : DerivesTypedNames dialect tokens names) (named : AreNamed tokens) :
    tokens.map Token.lexeme = nameLexemes names := by
  cases derived with
  | mk head tail =>
    obtain ⟨first, others⟩ := areNamed_append.mp named
    rw [List.map_append, head.lexemes first, tail.lexemes others]
    rfl

theorem Grammar.DerivesFurtherNames.lexemes {names : List Text} (derived : DerivesFurtherNames tokens names) :
    tokens.map Token.lexeme = behindCommas (names.map fun name => [.identifier name]) := by
  induction derived with
  | none => rfl
  | some commaMark ident tail ih =>
    rw [List.map_cons, List.map_cons, commaMark, ident, ih]
    rfl

theorem Grammar.DerivesParameters.lexemes {names : List TypedName}
    (derived : DerivesParameters dialect tokens names) (named : AreNamed tokens) :
    tokens.map Token.lexeme = nameLexemes names := by
  cases derived with
  | none => rfl
  | some list => exact list.lexemes named

theorem Grammar.DerivesResults.lexemes {names : List TypedName}
    (derived : DerivesResults dialect tokens names) (named : AreNamed tokens) :
    tokens.map Token.lexeme = resultLexemes names := by
  cases derived with
  | none => rfl
  | some arrowMark list =>
    rw [List.map_cons, arrowMark, list.lexemes (areNamed_cons.mp named).2]
    cases list
    rfl

/-! ## Expressions -/

theorem lexeme_of_literalOf? {lexeme : Lexeme} {kind : Literal.Kind} {value : Text}
    (found : Parser.literalOf? lexeme = some (kind, value)) : lexeme = kind.lexeme value := by
  unfold Parser.literalOf? at found
  split at found <;> cases found <;> rfl

theorem Grammar.DerivesLiteral.lexemes {value : Literal} (derived : DerivesLiteral dialect tokens value)
    (named : AreNamed tokens) : tokens.map Token.lexeme = literalLexemes value := by
  cases derived with
  | mk lexeme typed =>
    rw [List.map_cons, lexeme_of_literalOf? lexeme, typed.lexemes (areNamed_cons.mp named).2]
    rfl

mutual

theorem Grammar.DerivesExpression.lexemes {tokens : List Token} {expression : Expression}
    (derived : DerivesExpression dialect tokens expression) (named : AreNamed tokens) :
    tokens.map Token.lexeme = expression.lexemes := by
  cases derived with
  | literal derived => exact derived.lexemes named
  | identifier ident => rw [List.map_singleton, ident, Expression.lexemes]
  | call ident openMark list closeMark =>
    simp only [areNamed_cons, areNamed_append] at named
    obtain ⟨-, -, inside, -⟩ := named
    simp only [List.map_cons, List.map_append, List.map_nil, ident, openMark, closeMark,
      DerivesArguments.lexemes list inside, Expression.lexemes]

theorem Grammar.DerivesArguments.lexemes {tokens : List Token} {arguments : List Expression}
    (derived : DerivesArguments dialect tokens arguments) (named : AreNamed tokens) :
    tokens.map Token.lexeme = separated (lexemesEach arguments) := by
  cases derived with
  | none => rfl
  | some head tail =>
    obtain ⟨first, others⟩ := areNamed_append.mp named
    rw [List.map_append, DerivesExpression.lexemes head first, DerivesFurtherArguments.lexemes tail others]
    rfl

theorem Grammar.DerivesFurtherArguments.lexemes {tokens : List Token} {arguments : List Expression}
    (derived : DerivesFurtherArguments dialect tokens arguments) (named : AreNamed tokens) :
    tokens.map Token.lexeme = behindCommas (lexemesEach arguments) := by
  cases derived with
  | none => rfl
  | some commaMark head tail =>
    simp only [areNamed_cons, areNamed_append] at named
    obtain ⟨-, first, others⟩ := named
    rw [List.map_cons, List.map_append, commaMark, DerivesExpression.lexemes head first,
      DerivesFurtherArguments.lexemes tail others]
    rfl

end

/-! ## Statements -/

mutual

theorem Grammar.DerivesBlock.lexemes {tokens : List Token} {block : Block}
    (derived : DerivesBlock dialect tokens block) (named : AreNamed tokens) :
    tokens.map Token.lexeme = block.lexemes := by
  cases derived with
  | braces openMark list closeMark =>
    simp only [areNamed_cons, areNamed_append] at named
    obtain ⟨-, inside, -⟩ := named
    simp only [List.map_cons, List.map_append, List.map_nil, openMark, closeMark,
      DerivesStatements.lexemes list inside, Block.lexemes]

theorem Grammar.DerivesStatements.lexemes {tokens : List Token} {statements : List Statement}
    (derived : DerivesStatements dialect tokens statements) (named : AreNamed tokens) :
    tokens.map Token.lexeme = statementsLexemes statements := by
  cases derived with
  | none => rfl
  | some head tail =>
    obtain ⟨first, others⟩ := areNamed_append.mp named
    rw [List.map_append, DerivesStatement.lexemes head first, DerivesStatements.lexemes tail others,
      statementsLexemes]

theorem Grammar.DerivesStatement.lexemes {tokens : List Token} {statement : Statement}
    (derived : DerivesStatement dialect tokens statement) (named : AreNamed tokens) :
    tokens.map Token.lexeme = statement.lexemes := by
  cases derived with
  | block derived => exact DerivesBlock.lexemes derived named
  | functionDefinition keyword ident openMark taken closeMark given derived =>
    simp only [areNamed_cons, areNamed_append] at named
    obtain ⟨-, -, -, inner, -, returned, inside⟩ := named
    simp only [List.map_cons, List.map_append, keyword, ident, openMark, closeMark, taken.lexemes inner,
      given.lexemes returned, DerivesBlock.lexemes derived inside, Statement.lexemes]
  | declaration keyword list =>
    rw [List.map_cons, keyword, list.lexemes (areNamed_cons.mp named).2, Statement.lexemes]
  | initialisation keyword list assignMark derived =>
    simp only [areNamed_cons, areNamed_append] at named
    obtain ⟨-, names, -, right⟩ := named
    simp only [List.map_cons, List.map_append, keyword, assignMark, list.lexemes names,
      derived.lexemes right, Statement.lexemes]
  | assignment ident list assignMark derived =>
    simp only [areNamed_cons, areNamed_append] at named
    obtain ⟨-, -, -, right⟩ := named
    simp only [List.map_cons, List.map_append, ident, assignMark, list.lexemes, derived.lexemes right,
      Statement.lexemes, separated, List.cons_append, List.nil_append]
  | call derived => exact derived.lexemes named
  | switch keyword derived list some =>
    simp only [areNamed_cons, areNamed_append] at named
    obtain ⟨-, tested, branches⟩ := named
    simp only [List.map_cons, List.map_append, keyword, derived.lexemes tested,
      DerivesCases.lexemes list branches, Statement.lexemes]
  | ifThen keyword tested derived =>
    simp only [areNamed_cons, areNamed_append] at named
    obtain ⟨-, condition, inside⟩ := named
    simp only [List.map_cons, List.map_append, keyword, tested.lexemes condition,
      DerivesBlock.lexemes derived inside, Statement.lexemes]
  | forLoop keyword prepared tested advanced derived =>
    simp only [areNamed_cons, areNamed_append] at named
    obtain ⟨-, before, condition, behind, inside⟩ := named
    simp only [List.map_cons, List.map_append, keyword, DerivesBlock.lexemes prepared before,
      tested.lexemes condition, DerivesBlock.lexemes advanced behind, DerivesBlock.lexemes derived inside,
      Statement.lexemes]
  | breakLoop keyword | continueLoop keyword =>
    rw [List.map_singleton, keyword, Statement.lexemes]

theorem Grammar.DerivesCases.lexemes {tokens : List Token} {cases : List Case}
    (derived : DerivesCases dialect tokens cases) (named : AreNamed tokens) :
    tokens.map Token.lexeme = casesLexemes cases := by
  cases derived with
  | none => rfl
  | default keyword derived =>
    rw [List.map_cons, keyword, DerivesBlock.lexemes derived (areNamed_cons.mp named).2, casesLexemes,
      casesLexemes, Case.lexemes, List.append_nil]
  | case keyword tested derived tail =>
    simp only [areNamed_cons, areNamed_append] at named
    obtain ⟨-, value, inside, others⟩ := named
    simp only [List.map_cons, List.map_append, keyword, tested.lexemes value,
      DerivesBlock.lexemes derived inside, DerivesCases.lexemes tail others, casesLexemes, Case.lexemes,
      Expression.lexemes, List.cons_append, List.append_assoc]

end

end Ir

end ContractAsm

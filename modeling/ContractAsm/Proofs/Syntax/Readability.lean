import ContractAsm.Proofs.Syntax.Lexemes

/-!
# What is derived is readable

The tokens of a text are spelled lexemes, so a tree that is derived from them consists of names
and literals that can be written again. The exception are strings that go over the end of a
line, which they may inside a pair of a backslash and a line break: where such a string is
printed, its lines are moved in.
-/

namespace ContractAsm.Ir

open CodeUnit (newline)
open Grammar
open Token (Spells)

/-! ## Written tokens -/

/-- The lexeme of the token is spelled, and if it is a string it ends on its line. -/
def IsWritten (token : Token) : Prop :=
  (∃ word, Spells token.lexeme word) ∧ ∀ value, token.lexeme = .string value → newline ∉ value.units

variable {dialect : Dialect}

theorem isName_of_spells {name : Text} {word : List CodeUnit} (spelled : Spells (.identifier name) word) :
    IsName name := by
  generalize same : Lexeme.identifier name = lexeme at spelled
  cases spelled with
  | @word first rest starts continues =>
    unfold Lexeme.ofWord at same
    cases reserved : Keyword.ofText? ⟨first :: rest⟩ with
    | some keyword =>
      rw [reserved] at same
      contradiction
    | none =>
      rw [reserved] at same
      cases same
      exact ⟨⟨first, rest, rfl, starts, continues⟩, reserved⟩
  | decimal | hexadecimal | string | mark => contradiction

theorem IsWritten.isName {token : Token} {name : Text} (written : IsWritten token)
    (ident : token.lexeme = .identifier name) : IsName name := by
  obtain ⟨⟨word, spelled⟩, -⟩ := written
  rw [ident] at spelled
  exact isName_of_spells spelled

theorem units_of_spells_number {value : Text} {word : List CodeUnit}
    (spelled : Spells (.number value) word) : word = value.units := by
  generalize same : Lexeme.number value = lexeme at spelled
  cases spelled with
  | decimal | hexadecimal =>
    cases same
    rfl
  | word =>
    unfold Lexeme.ofWord at same
    split at same <;> contradiction
  | string | mark => contradiction

theorem isBody_of_spells {value : Text} {word : List CodeUnit} (spelled : Spells (.string value) word) :
    Token.IsBody value.units := by
  generalize same : Lexeme.string value = lexeme at spelled
  cases spelled with
  | string inside =>
    cases same
    exact inside
  | word =>
    unfold Lexeme.ofWord at same
    split at same <;> contradiction
  | decimal | hexadecimal | mark => contradiction

theorem IsWritten.spells {token : Token} {kind : Literal.Kind} {value : Text} (written : IsWritten token)
    (lexeme : Parser.literalOf? token.lexeme = some (kind, value)) : kind.Spells value := by
  obtain ⟨⟨word, spelled⟩, line⟩ := written
  unfold Parser.literalOf? at lexeme
  split at lexeme
  · rename_i digits number
    cases lexeme
    rw [number] at spelled
    have whole := units_of_spells_number spelled
    rwa [whole] at spelled
  · rename_i body string
    cases lexeme
    rw [string] at spelled
    exact ⟨isBody_of_spells spelled, line value string⟩
  · cases lexeme
    exact .inl rfl
  · cases lexeme
    exact .inr rfl
  · contradiction

def AreWritten (tokens : List Token) : Prop := ∀ token ∈ tokens, IsWritten token

theorem areWritten_cons {token : Token} {rest : List Token} :
    AreWritten (token :: rest) ↔ IsWritten token ∧ AreWritten rest := List.forall_mem_cons

theorem areWritten_append {first second : List Token} :
    AreWritten (first ++ second) ↔ AreWritten first ∧ AreWritten second := List.forall_mem_append

/-! ## Types and names -/

theorem types_of_derives {tokens : List Token} {type : Text} (derived : DerivesType dialect tokens type)
    (written : AreWritten tokens) : dialect.Types (some type) := by
  rw [Dialect.Types]
  cases derived with
  | typed mode colonMark typeName =>
    rw [if_pos mode]
    exact (written _ (List.mem_cons_of_mem _ List.mem_cons_self)).isName typeName
  | untyped mode =>
    rw [mode, if_neg Bool.false_ne_true]

theorem typedName_readable {tokens : List Token} {declared : TypedName}
    (derived : DerivesTypedName dialect tokens declared) (written : AreWritten tokens) :
    IsName declared.name ∧ dialect.Types declared.type := by
  cases derived with
  | mk ident typed =>
    obtain ⟨head, tail⟩ := areWritten_cons.mp written
    exact ⟨head.isName ident, types_of_derives typed tail⟩

theorem namesReadable_cons {declared : TypedName} {others : List TypedName}
    (head : IsName declared.name ∧ dialect.Types declared.type) (tail : NamesReadable dialect others) :
    NamesReadable dialect (declared :: others) := List.forall_mem_cons.mpr ⟨head, tail⟩

theorem namesReadable_nil : NamesReadable dialect [] := fun _ member => nomatch member

theorem furtherTypedNames_readable {tokens : List Token} {names : List TypedName}
    (derived : DerivesFurtherTypedNames dialect tokens names) (written : AreWritten tokens) :
    NamesReadable dialect names := by
  induction derived with
  | none => exact namesReadable_nil
  | some commaMark head tail ih =>
    obtain ⟨-, written⟩ := areWritten_cons.mp written
    obtain ⟨first, others⟩ := areWritten_append.mp written
    exact namesReadable_cons (typedName_readable head first) (ih others)

theorem typedNames_readable {tokens : List Token} {names : List TypedName}
    (derived : DerivesTypedNames dialect tokens names) (written : AreWritten tokens) :
    names ≠ [] ∧ NamesReadable dialect names := by
  cases derived with
  | mk head tail =>
    obtain ⟨first, others⟩ := areWritten_append.mp written
    exact ⟨List.cons_ne_nil _ _,
      namesReadable_cons (typedName_readable head first) (furtherTypedNames_readable tail others)⟩

theorem parameters_readable {tokens : List Token} {names : List TypedName}
    (derived : DerivesParameters dialect tokens names) (written : AreWritten tokens) :
    NamesReadable dialect names := by
  cases derived with
  | none => exact namesReadable_nil
  | some list => exact (typedNames_readable list written).2

theorem results_readable {tokens : List Token} {names : List TypedName}
    (derived : DerivesResults dialect tokens names) (written : AreWritten tokens) :
    NamesReadable dialect names := by
  cases derived with
  | none => exact namesReadable_nil
  | some arrowMark list => exact (typedNames_readable list (areWritten_cons.mp written).2).2

theorem furtherNames_areNames {tokens : List Token} {names : List Text}
    (derived : DerivesFurtherNames tokens names) (written : AreWritten tokens) :
    ∀ name ∈ names, IsName name := by
  induction derived with
  | none => exact fun _ member => nomatch member
  | some commaMark ident tail ih =>
    obtain ⟨-, written⟩ := areWritten_cons.mp written
    obtain ⟨named, others⟩ := areWritten_cons.mp written
    exact List.forall_mem_cons.mpr ⟨named.isName ident, ih others⟩

/-! ## Expressions -/

theorem literal_readable {tokens : List Token} {value : Literal}
    (derived : DerivesLiteral dialect tokens value) (written : AreWritten tokens) : LiteralReadable dialect value := by
  cases derived with
  | mk lexeme typed =>
    obtain ⟨head, tail⟩ := areWritten_cons.mp written
    exact ⟨head.spells lexeme, types_of_derives typed tail⟩

mutual

theorem Grammar.DerivesExpression.readable {tokens : List Token} {expression : Expression}
    (derived : DerivesExpression dialect tokens expression) (written : AreWritten tokens) :
    expression.Readable dialect := by
  cases derived with
  | literal derived => exact literal_readable derived written
  | identifier ident => exact (written _ List.mem_cons_self).isName ident
  | call ident openMark list closeMark =>
    simp only [areWritten_cons, areWritten_append] at written
    obtain ⟨named, -, inside, -⟩ := written
    exact ⟨named.isName ident, DerivesArguments.readable list inside⟩

theorem Grammar.DerivesArguments.readable {tokens : List Token} {arguments : List Expression}
    (derived : DerivesArguments dialect tokens arguments) (written : AreWritten tokens) :
    ReadableEach dialect arguments := by
  cases derived with
  | none => trivial
  | some head tail =>
    obtain ⟨first, others⟩ := areWritten_append.mp written
    exact ⟨DerivesExpression.readable head first, DerivesFurtherArguments.readable tail others⟩

theorem Grammar.DerivesFurtherArguments.readable {tokens : List Token} {arguments : List Expression}
    (derived : DerivesFurtherArguments dialect tokens arguments) (written : AreWritten tokens) :
    ReadableEach dialect arguments := by
  cases derived with
  | none => trivial
  | some commaMark head tail =>
    simp only [areWritten_cons, areWritten_append] at written
    obtain ⟨-, first, others⟩ := written
    exact ⟨DerivesExpression.readable head first, DerivesFurtherArguments.readable tail others⟩

end

/-! ## Statements -/

mutual

/-- A block that is derived from written tokens is readable. -/
theorem Grammar.DerivesBlock.readable {tokens : List Token} {block : Block}
    (derived : DerivesBlock dialect tokens block) (written : AreWritten tokens) :
    block.Readable dialect := by
  cases derived with
  | braces openMark list closeMark =>
    simp only [areWritten_cons, areWritten_append] at written
    obtain ⟨-, inside, -⟩ := written
    exact ⟨rfl, DerivesStatements.readable list inside⟩

theorem Grammar.DerivesStatements.readable {tokens : List Token} {statements : List Statement}
    (derived : DerivesStatements dialect tokens statements) (written : AreWritten tokens) :
    StatementsReadable dialect statements := by
  cases derived with
  | none => trivial
  | some head tail =>
    obtain ⟨first, others⟩ := areWritten_append.mp written
    exact ⟨DerivesStatement.readable head first, DerivesStatements.readable tail others⟩

theorem Grammar.DerivesStatement.readable {tokens : List Token} {statement : Statement}
    (derived : DerivesStatement dialect tokens statement) (written : AreWritten tokens) :
    statement.Readable dialect := by
  cases derived with
  | block derived => exact DerivesBlock.readable derived written
  | functionDefinition keyword named openMark taken closeMark given derived =>
    simp only [areWritten_cons, areWritten_append] at written
    obtain ⟨-, ident, -, inner, -, returned, inside⟩ := written
    exact ⟨ident.isName named, parameters_readable taken inner, results_readable given returned,
      DerivesBlock.readable derived inside⟩
  | declaration keyword list => exact typedNames_readable list (areWritten_cons.mp written).2
  | initialisation keyword list assignMark derived =>
    simp only [areWritten_cons, areWritten_append] at written
    obtain ⟨-, names, -, right⟩ := written
    obtain ⟨nonempty, readable⟩ := typedNames_readable list names
    exact ⟨nonempty, readable, derived.readable right⟩
  | assignment ident list assignMark derived =>
    simp only [areWritten_cons, areWritten_append] at written
    obtain ⟨first, names, -, right⟩ := written
    have targets := List.forall_mem_cons.mpr ⟨first.isName ident, furtherNames_areNames list names⟩
    exact ⟨List.cons_ne_nil _ _, targets, derived.readable right⟩
  | call derived => exact derived.readable written
  | switch keyword derived list some =>
    simp only [areWritten_cons, areWritten_append] at written
    obtain ⟨-, tested, branches⟩ := written
    exact ⟨derived.readable tested, some, DerivesCases.readable list branches⟩
  | ifThen keyword tested derived =>
    simp only [areWritten_cons, areWritten_append] at written
    obtain ⟨-, condition, inside⟩ := written
    exact ⟨tested.readable condition, DerivesBlock.readable derived inside⟩
  | forLoop keyword prepared tested advanced derived =>
    simp only [areWritten_cons, areWritten_append] at written
    obtain ⟨-, before, condition, behind, inside⟩ := written
    exact ⟨DerivesBlock.readable prepared before, tested.readable condition,
      DerivesBlock.readable advanced behind, DerivesBlock.readable derived inside⟩
  | breakLoop keyword | continueLoop keyword => trivial

theorem Grammar.DerivesCases.readable {tokens : List Token} {cases : List Case}
    (derived : DerivesCases dialect tokens cases) (written : AreWritten tokens) :
    CasesReadable dialect cases := by
  cases derived with
  | none => trivial
  | default keyword derived => exact ⟨DerivesBlock.readable derived (areWritten_cons.mp written).2, rfl⟩
  | case keyword tested derived tail =>
    simp only [areWritten_cons, areWritten_append] at written
    obtain ⟨-, value, inside, others⟩ := written
    exact ⟨literal_readable tested value, DerivesBlock.readable derived inside,
      DerivesCases.readable tail others⟩

end

end ContractAsm.Ir

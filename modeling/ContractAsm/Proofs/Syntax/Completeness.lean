import ContractAsm.Proofs.Syntax.Soundness

/-!
# What follows the grammar is read

From the tokens of a derivation, whatever comes behind them, a reader returns the derived
tree and stops there. What comes behind must not be a token by which the reader would go
on; the tokens that may follow in the grammar are not. The bound on nesting is linear in
the number of tokens.
-/

namespace ContractAsm.Ir.Parser

open Grammar

variable {dialect : Dialect} {rest : List Token} {final : Token} {last : Nat}
  {warnings : List Location}

def ahead (tokens : List Token) (final : Token) : Lexeme := (tokens.headD final).lexeme

@[simp] theorem ahead_cons (token : Token) (rest : List Token) (final : Token) :
    ahead (token :: rest) final = token.lexeme := rfl

@[simp] theorem next_lexeme (tokens : List Token) (final : Token) (last : Nat)
    (warnings : List Location) :
    (Cursor.next ⟨tokens, final, last, warnings⟩).lexeme = ahead tokens final := rfl

structure EndsNames (lexeme : Lexeme) : Prop where
  colon : lexeme ≠ .punctuation .colon
  comma : lexeme ≠ .punctuation .comma

/-- The lexeme does not continue an expression. -/
structure EndsExpression (lexeme : Lexeme) : Prop where
  colon : lexeme ≠ .punctuation .colon
  openParen : lexeme ≠ .punctuation .openParen

structure EndsStatement (lexeme : Lexeme) : Prop extends EndsNames lexeme, EndsExpression lexeme where
  assign : lexeme ≠ .punctuation .assign
  caseWord : lexeme ≠ .keyword .caseWord
  defaultWord : lexeme ≠ .keyword .defaultWord

/-! ## Types and names -/

theorem typing_complete {tokens : List Token} {type : Text} (derived : DerivesType dialect tokens type)
    (missing : SyntaxFault) (owner : Token) (stop : ahead rest final ≠ .punctuation .colon) :
    annotation dialect missing owner ⟨tokens ++ rest, final, last, warnings⟩
      = .ok type ⟨rest, final, stopAfter last tokens, warnings⟩ := by
  unfold annotation
  rw [isNextMark_bind]
  cases derived with
  | @typed colon name type mode colonMark typeName =>
    simp only [List.cons_append, next_lexeme, ahead_cons, colonMark, decide_true, if_true, mode]
    rw [take_bind, takeName_bind typeName]
    rfl
  | untyped mode =>
    simp only [List.nil_append, next_lexeme, stop, decide_false, mode]
    rfl

theorem typedName_complete {tokens : List Token} {declared : TypedName}
    (derived : DerivesTypedName dialect tokens declared)
    (stop : ahead rest final ≠ .punctuation .colon) :
    typedName dialect ⟨tokens ++ rest, final, last, warnings⟩
      = .ok declared ⟨rest, final, stopAfter last tokens, warnings⟩ := by
  cases derived with
  | mk ident typed =>
    rw [typedName, List.cons_append, takeName_bind ident]
    dsimp only
    rw [bind_of_ok (typing_complete typed _ _ stop)]
    rfl

theorem ahead_furtherTypedNames {tokens : List Token} {names : List TypedName}
    (derived : DerivesFurtherTypedNames dialect tokens names)
    (stop : ahead rest final ≠ .punctuation .colon) :
    ahead (tokens ++ rest) final ≠ .punctuation .colon := by
  cases derived with
  | none => exact stop
  | some commaMark _ _ => simp [commaMark]

theorem furtherTypedNames_complete {fuel : Nat} {tokens : List Token} {names : List TypedName}
    (derived : DerivesFurtherTypedNames dialect tokens names) (enough : tokens.length < fuel)
    (stop : EndsNames (ahead rest final)) :
    furtherTypedNames dialect fuel ⟨tokens ++ rest, final, last, warnings⟩
      = .ok names ⟨rest, final, stopAfter last tokens, warnings⟩ := by
  induction derived generalizing fuel last with
  | none =>
    obtain _ | fuel := fuel
    · omega
    rw [furtherTypedNames, isNextMark_bind]
    simp only [List.nil_append, next_lexeme, stop.comma, decide_false]
    rfl
  | @some comma first others declared names commaMark head tail ih =>
    obtain _ | fuel := fuel
    · omega
    simp only [List.length_cons, List.length_append] at enough
    rw [furtherTypedNames, isNextMark_bind]
    simp only [List.cons_append, List.append_assoc, next_lexeme, ahead_cons, commaMark, decide_true,
      if_true]
    rw [take_bind, bind_of_ok (typedName_complete head (ahead_furtherTypedNames tail stop.colon)),
      bind_of_ok (ih (by omega))]
    simp [pure_apply]

theorem typedNames_complete {fuel : Nat} {tokens : List Token} {names : List TypedName}
    (derived : DerivesTypedNames dialect tokens names) (enough : tokens.length ≤ fuel)
    (stop : EndsNames (ahead rest final)) :
    typedNames dialect fuel ⟨tokens ++ rest, final, last, warnings⟩
      = .ok names ⟨rest, final, stopAfter last tokens, warnings⟩ := by
  cases derived with
  | @mk first others declared names head tail =>
    have some : 0 < first.length := by cases head; simp
    rw [List.length_append] at enough
    rw [typedNames, List.append_assoc,
      bind_of_ok (typedName_complete head (ahead_furtherTypedNames tail stop.colon)),
      bind_of_ok (furtherTypedNames_complete tail (by omega) stop)]
    simp [pure_apply]

theorem furtherNames_complete {fuel : Nat} {tokens : List Token} {names : List Text}
    (derived : DerivesFurtherNames tokens names) (enough : tokens.length < fuel)
    (stop : ahead rest final ≠ .punctuation .comma) :
    furtherNames fuel ⟨tokens ++ rest, final, last, warnings⟩
      = .ok names ⟨rest, final, stopAfter last tokens, warnings⟩ := by
  induction derived generalizing fuel last with
  | none =>
    obtain _ | fuel := fuel
    · omega
    rw [furtherNames, isNextMark_bind]
    simp only [List.nil_append, next_lexeme, stop, decide_false]
    rfl
  | @some comma name others text names commaMark ident tail ih =>
    obtain _ | fuel := fuel
    · omega
    simp only [List.length_cons] at enough
    rw [furtherNames, isNextMark_bind]
    simp only [List.cons_append, next_lexeme, ahead_cons, commaMark, decide_true, if_true]
    rw [take_bind, takeName_bind ident, bind_of_ok (ih (by omega))]
    rfl

theorem parameterList_complete {fuel : Nat} {opening closing : Token} {inner : List Token}
    {parameters : List TypedName}
    (openMark : opening.lexeme = .punctuation .openParen)
    (derived : DerivesParameters dialect inner parameters)
    (closeMark : closing.lexeme = .punctuation .closeParen) (enough : inner.length ≤ fuel) :
    parameterList dialect fuel ⟨opening :: (inner ++ closing :: rest), final, last, warnings⟩
      = .ok parameters ⟨rest, final, closing.stop, warnings⟩ := by
  rw [parameterList, takeMark_bind openMark, isNextMark_bind]
  cases derived with
  | none =>
    simp only [List.nil_append, next_lexeme, ahead_cons, closeMark, decide_true, if_true]
    rw [bind_of_ok (pure_apply _ _), takeMark_bind closeMark]
    rfl
  | some list =>
    have noClose : ahead (inner ++ closing :: rest) final ≠ .punctuation .closeParen := by
      cases list with
      | mk head _ => cases head with
        | mk ident _ => simp [ident]
    simp only [next_lexeme, noClose, decide_false]
    rw [if_neg Bool.false_ne_true, bind_of_ok (typedNames_complete list enough
      ⟨by simp [closeMark], by simp [closeMark]⟩), takeMark_bind closeMark]
    rfl

theorem resultList_complete {fuel : Nat} {tokens : List Token} {results : List TypedName}
    (derived : DerivesResults dialect tokens results) (enough : tokens.length ≤ fuel)
    (stop : ahead rest final = .punctuation .openBrace) :
    resultList dialect fuel ⟨tokens ++ rest, final, last, warnings⟩
      = .ok results ⟨rest, final, stopAfter last tokens, warnings⟩ := by
  rw [resultList, isNextMark_bind]
  cases derived with
  | none =>
    simp only [List.nil_append, next_lexeme, stop]
    rfl
  | @some arrow tokens _ arrowMark list =>
    simp only [List.length_cons] at enough
    simp only [List.cons_append, next_lexeme, ahead_cons, arrowMark, decide_true, if_true]
    rw [take_bind, typedNames_complete list (by omega) ⟨by simp [stop], by simp [stop]⟩]
    rfl

/-! ## Expressions -/

theorem literal_complete {token : Token} {typing : List Token} {kind : Literal.Kind}
    {value : Text} {literal : Literal} (lexeme : literalOf? token.lexeme = some (kind, value))
    (derived : DerivesLiteral dialect (token :: typing) literal)
    (stop : ahead rest final ≠ .punctuation .colon) :
    Parser.literal dialect kind value ⟨token :: (typing ++ rest), final, last, warnings⟩
      = .ok literal ⟨rest, final, stopAfter token.stop typing, warnings⟩ := by
  cases derived with
  | mk lexeme' typed =>
    obtain ⟨rfl, rfl⟩ : kind = _ ∧ value = _ := by simpa [lexeme] using lexeme'
    rw [Parser.literal, take_bind, bind_of_ok (typing_complete typed _ _ stop), rangeFrom_bind]
    rfl

/-- From the tokens of a derivation the reader returns its value, if the tokens are as few as
the bound wants and what stands behind them does not continue them. -/
def Complete {α : Type} (reader : Parser α) (derives : List Token → α → Prop)
    (found : α → List Location) (enough : Nat → Prop) (ends : Lexeme → Prop) : Prop :=
  ∀ ⦃tokens rest : List Token⦄ ⦃final : Token⦄ ⦃last : Nat⦄ ⦃warnings : List Location⦄ ⦃value : α⦄,
    derives tokens value → enough tokens.length → ends (ahead rest final) →
    reader ⟨tokens ++ rest, final, last, warnings⟩
      = .ok value ⟨rest, final, stopAfter last tokens, warnings ++ found value⟩

theorem Complete.read {α : Type} {reader : Parser α} {derives : List Token → α → Prop}
    {found : α → List Location} {enough : Nat → Prop} {ends : Lexeme → Prop}
    (h : Complete reader derives found enough ends) {tokens : List Token} {value : α}
    (rest : List Token) (final : Token) (last : Nat) (warnings : List Location)
    (derived : derives tokens value) (bounded : enough tokens.length) (stop : ends (ahead rest final)) :
    reader ⟨tokens ++ rest, final, last, warnings⟩
      = .ok value ⟨rest, final, stopAfter last tokens, warnings ++ found value⟩ :=
  h derived bounded stop

theorem head_expression {tokens : List Token} {value : Expression}
    (derived : DerivesExpression dialect tokens value) :
    ∃ token others, tokens = token :: others ∧
      ((∃ name, token.lexeme = .identifier name) ∨ ∃ found, literalOf? token.lexeme = some found) := by
  cases derived with
  | literal derived => cases derived with
    | mk lexeme _ => exact ⟨_, _, rfl, .inr ⟨_, lexeme⟩⟩
  | identifier ident => exact ⟨_, _, rfl, .inl ⟨_, ident⟩⟩
  | call ident _ _ _ => exact ⟨_, _, rfl, .inl ⟨_, ident⟩⟩

theorem length_expression_pos {tokens : List Token} {value : Expression}
    (derived : DerivesExpression dialect tokens value) : 0 < tokens.length := by
  obtain ⟨token, others, rfl, -⟩ := head_expression derived
  exact Nat.succ_pos _

theorem ahead_expression_ne {tokens : List Token} {value : Expression}
    (derived : DerivesExpression dialect tokens value) (mark : Punctuation) :
    ahead (tokens ++ rest) final ≠ .punctuation mark := by
  obtain ⟨token, others, rfl, ⟨name, ident⟩ | ⟨found, lexeme⟩⟩ := head_expression derived
  · simp [ident]
  · intro isMark
    rw [List.cons_append, ahead_cons] at isMark
    simp [isMark, literalOf?] at lexeme

theorem ends_furtherArguments {inner : List Token} {closing : Token} {arguments : List Expression}
    (derived : DerivesFurtherArguments dialect inner arguments)
    (closeMark : closing.lexeme = .punctuation .closeParen) :
    EndsExpression (ahead (inner ++ closing :: rest) final) := by
  cases derived with
  | none => exact ⟨by simp [closeMark], by simp [closeMark]⟩
  | some commaMark _ _ => exact ⟨by simp [commaMark], by simp [commaMark]⟩

theorem expression_succ_complete {fuel : Nat}
    (ih : Complete (callArguments dialect fuel) (Closed .closeParen (DerivesArguments dialect))
      (fun _ => []) (2 * · ≤ fuel) fun _ => True) :
    Complete (expression dialect (fuel + 1)) (DerivesExpression dialect) (fun _ => [])
      (2 * · ≤ fuel + 1) EndsExpression := by
  intro tokens rest final last warnings value derived enough stop
  rw [expression, peek_bind]
  cases derived with
  | literal derived =>
    cases derived with
    | @mk token typing kind value type lexeme typed =>
      have read : (do return Expression.literal (← literal dialect kind value) : Parser _)
          ⟨token :: (typing ++ rest), final, last, warnings⟩
          = .ok (.literal ⟨kind, value, some type, some (span dialect token typing)⟩)
              ⟨rest, final, stopAfter token.stop typing, warnings⟩ :=
        bind_of_ok (literal_complete lexeme (.mk lexeme typed) stop.colon)
      simp only [List.cons_append, next_lexeme, ahead_cons, List.append_nil, stopAfter_cons]
      rw [← read]
      cases found : token.lexeme <;> simp only [found, literalOf?] at lexeme ⊢
      case number => cases lexeme; rfl
      case string => cases lexeme; rfl
      case keyword word => cases word <;> cases lexeme <;> rfl
      all_goals cases lexeme
  | @identifier token name ident =>
    simp only [List.cons_append, List.nil_append, next_lexeme, ahead_cons, ident]
    rw [take_bind, isNextMark_bind]
    simp only [next_lexeme, stop.openParen, decide_false]
    simp [Cursor.next, span, pure_apply]
  | @call token opening closing name inner arguments ident openMark list closeMark =>
    have enough : 2 * (inner ++ [closing]).length ≤ fuel := by
      simp only [List.length_cons, List.length_append] at enough ⊢
      omega
    simp only [List.cons_append, next_lexeme, ahead_cons, ident]
    rw [take_bind, isNextMark_bind]
    simp only [next_lexeme, ahead_cons, openMark, decide_true, if_true]
    rw [take_bind, bind_of_ok (ih ⟨inner, closing, rfl, closeMark, list⟩ enough trivial), rangeFrom_bind]
    simp [Cursor.next, span, pure_apply]

theorem callArguments_succ_complete {fuel : Nat}
    (first : Complete (expression dialect fuel) (DerivesExpression dialect) (fun _ => [])
      (2 * · ≤ fuel) EndsExpression)
    (ih : Complete (furtherArguments dialect fuel)
      (Closed .closeParen (DerivesFurtherArguments dialect)) (fun _ => []) (2 * · ≤ fuel + 1)
      fun _ => True) :
    Complete (callArguments dialect (fuel + 1)) (Closed .closeParen (DerivesArguments dialect))
      (fun _ => []) (2 * · ≤ fuel + 1) fun _ => True := by
  rintro _ rest final last warnings arguments ⟨inner, closing, rfl, closeMark, derived⟩ enough -
  rw [callArguments, isNextMark_bind]
  cases derived with
  | none =>
    simp only [List.nil_append, List.cons_append, next_lexeme, ahead_cons, closeMark, decide_true, if_true]
    rw [take_bind]
    simp [pure_apply]
  | @some head others expression expressions derived tail =>
    have some := length_expression_pos derived
    simp only [List.length_append, List.length_cons, List.length_nil] at enough
    simp only [List.append_assoc, List.cons_append, List.nil_append, next_lexeme,
      ahead_expression_ne derived, decide_false]
    rw [if_neg Bool.false_ne_true,
      bind_of_ok (first derived (by omega) (ends_furtherArguments tail closeMark))]
    have read := ih.read rest final (stopAfter last head) warnings
      ⟨others, closing, rfl, closeMark, tail⟩ (by simp; omega) trivial
    simp only [List.append_assoc, List.cons_append, List.nil_append, List.append_nil] at read ⊢
    rw [bind_of_ok read]
    simp [pure_apply]

theorem furtherArguments_succ_complete {fuel : Nat}
    (first : Complete (expression dialect fuel) (DerivesExpression dialect) (fun _ => [])
      (2 * · ≤ fuel) EndsExpression)
    (ih : Complete (furtherArguments dialect fuel)
      (Closed .closeParen (DerivesFurtherArguments dialect)) (fun _ => []) (2 * · ≤ fuel + 1)
      fun _ => True) :
    Complete (furtherArguments dialect (fuel + 1))
      (Closed .closeParen (DerivesFurtherArguments dialect)) (fun _ => []) (2 * · ≤ fuel + 1 + 1)
      fun _ => True := by
  rintro _ rest final last warnings arguments ⟨inner, closing, rfl, closeMark, derived⟩ enough -
  rw [furtherArguments, isNextMark_bind]
  cases derived with
  | none =>
    simp only [List.nil_append, List.cons_append, next_lexeme, ahead_cons, closeMark]
    rw [decide_eq_false (by simp), if_neg Bool.false_ne_true, takeMark_bind closeMark]
    simp [pure_apply]
  | @some comma head others expression expressions commaMark derived tail =>
    have some := length_expression_pos derived
    simp only [List.length_append, List.length_cons, List.length_nil] at enough
    simp only [List.append_assoc, List.cons_append, List.nil_append, next_lexeme, ahead_cons,
      commaMark, decide_true, if_true]
    rw [take_bind, bind_of_ok (first derived (by omega) (ends_furtherArguments tail closeMark))]
    have read := ih.read rest final (stopAfter comma.stop head) warnings
      ⟨others, closing, rfl, closeMark, tail⟩ (by simp; omega) trivial
    simp only [List.append_assoc, List.cons_append, List.nil_append, List.append_nil] at read ⊢
    rw [bind_of_ok read]
    simp [pure_apply]

theorem expressions_complete (fuel : Nat) :
    Complete (expression dialect fuel) (DerivesExpression dialect) (fun _ => []) (2 * · ≤ fuel)
        EndsExpression ∧
      Complete (callArguments dialect fuel) (Closed .closeParen (DerivesArguments dialect))
        (fun _ => []) (2 * · ≤ fuel) (fun _ => True) ∧
      Complete (furtherArguments dialect fuel)
        (Closed .closeParen (DerivesFurtherArguments dialect)) (fun _ => []) (2 * · ≤ fuel + 1)
        fun _ => True := by
  induction fuel with
  | zero =>
    refine ⟨?_, ?_, ?_⟩
    · intro tokens _ _ _ _ _ derived enough
      have := length_expression_pos derived
      omega
    · rintro _ _ _ _ _ _ ⟨inner, closing, rfl, -, -⟩ enough
      simp at enough
    · rintro _ _ _ _ _ _ ⟨inner, closing, rfl, -, -⟩ enough
      simp only [List.length_append, List.length_singleton] at enough
      omega
  | succ fuel ih =>
    obtain ⟨first, arguments, further⟩ := ih
    exact ⟨expression_succ_complete arguments, callArguments_succ_complete first further,
      furtherArguments_succ_complete first further⟩

theorem expression_complete {fuel : Nat} {tokens : List Token} {value : Expression}
    (derived : DerivesExpression dialect tokens value) (enough : 2 * tokens.length ≤ fuel)
    (stop : EndsExpression (ahead rest final)) :
    expression dialect fuel ⟨tokens ++ rest, final, last, warnings⟩
      = .ok value ⟨rest, final, stopAfter last tokens, warnings⟩ := by
  simpa using (expressions_complete fuel).1.read rest final last warnings derived enough stop

/-! ## Statements without blocks -/

/-- The first lexeme of a statement: a brace, a word that opens a statement, or a name. -/
def StartsStatement : Lexeme → Prop
  | .punctuation .openBrace => True
  | .keyword word => word ∈ [.functionWord, .letWord, .switchWord, .ifWord, .forWord, .breakWord, .continueWord]
  | .identifier _ => True
  | _ => False

theorem EndsStatement.of_starts {lexeme : Lexeme} (starts : StartsStatement lexeme) :
    EndsStatement lexeme where
  colon := by rintro rfl; exact starts
  comma := by rintro rfl; exact starts
  openParen := by rintro rfl; exact starts
  assign := by rintro rfl; exact starts
  caseWord := by rintro rfl; simp [StartsStatement] at starts
  defaultWord := by rintro rfl; simp [StartsStatement] at starts

theorem EndsStatement.closeBrace : EndsStatement (.punctuation .closeBrace) := by
  constructor <;> first | (constructor <;> simp) | simp

theorem head_block {tokens : List Token} {block : Block} (derived : DerivesBlock dialect tokens block) :
    ∃ token others, tokens = token :: others ∧ token.lexeme = .punctuation .openBrace := by
  cases derived with
  | braces openMark _ _ => exact ⟨_, _, rfl, openMark⟩

theorem ahead_block {tokens : List Token} {block : Block} (derived : DerivesBlock dialect tokens block) :
    ahead (tokens ++ rest) final = .punctuation .openBrace := by
  obtain ⟨token, others, rfl, openMark⟩ := head_block derived
  exact openMark

theorem head_statement {tokens : List Token} {statement : Statement}
    (derived : DerivesStatement dialect tokens statement) :
    ∃ token others, tokens = token :: others ∧ StartsStatement token.lexeme := by
  cases derived with
  | block derived =>
    obtain ⟨token, others, rfl, openMark⟩ := head_block derived
    exact ⟨token, others, rfl, by rw [openMark]; trivial⟩
  | call derived => cases derived with
    | call ident _ _ _ => exact ⟨_, _, rfl, by rw [ident]; trivial⟩
  | assignment ident _ _ _ => exact ⟨_, _, rfl, by rw [ident]; trivial⟩
  | functionDefinition keyword | declaration keyword | initialisation keyword | switch keyword
  | ifThen keyword | forLoop keyword | breakLoop keyword | continueLoop keyword =>
    exact ⟨_, _, rfl, by simp [keyword, StartsStatement]⟩

theorem length_statement_pos {tokens : List Token} {statement : Statement}
    (derived : DerivesStatement dialect tokens statement) : 0 < tokens.length := by
  obtain ⟨token, others, rfl, -⟩ := head_statement derived
  exact Nat.succ_pos _

theorem variableDeclaration_none_complete {fuel : Nat} {word : Token} {tokens : List Token}
    {names : List TypedName} (list : DerivesTypedNames dialect tokens names)
    (enough : tokens.length ≤ fuel) (stop : EndsStatement (ahead rest final)) :
    variableDeclaration dialect fuel ⟨word :: (tokens ++ rest), final, last, warnings⟩
      = .ok (.variableDeclaration names none (some (span dialect word tokens)))
          ⟨rest, final, stopAfter word.stop tokens, warnings⟩ := by
  rw [variableDeclaration, take_bind, bind_of_ok (typedNames_complete list enough stop.toEndsNames),
    isNextMark_bind]
  simp only [next_lexeme, stop.assign, decide_false]
  rw [if_neg Bool.false_ne_true, rangeFrom_bind]
  rfl

theorem variableDeclaration_some_complete {fuel : Nat} {word mark : Token} {tokens right : List Token}
    {names : List TypedName} {value : Expression} (list : DerivesTypedNames dialect tokens names)
    (assignMark : mark.lexeme = .punctuation .assign)
    (derived : DerivesExpression dialect right value) (enough : tokens.length ≤ fuel)
    (enough' : 2 * right.length ≤ fuel) (stop : EndsStatement (ahead rest final)) :
    variableDeclaration dialect fuel
        ⟨word :: (tokens ++ mark :: (right ++ rest)), final, last, warnings⟩
      = .ok (.variableDeclaration names (some value) (some (span dialect word (tokens ++ mark :: right))))
          ⟨rest, final, stopAfter mark.stop right, warnings⟩ := by
  rw [variableDeclaration, take_bind,
    bind_of_ok (typedNames_complete list enough ⟨by simp [assignMark], by simp [assignMark]⟩),
    isNextMark_bind]
  simp only [next_lexeme, ahead_cons, assignMark, decide_true, if_true]
  rw [take_bind, bind_of_ok (expression_complete derived enough' stop.toEndsExpression), rangeFrom_bind]
  simp [span, pure_apply]

theorem assignment_complete {fuel : Nat} {first mark : Token} {name : Text} {tokens right : List Token}
    {names : List Text} {value : Expression} (list : DerivesFurtherNames tokens names)
    (assignMark : mark.lexeme = .punctuation .assign)
    (derived : DerivesExpression dialect right value) (enough : tokens.length < fuel)
    (enough' : 2 * right.length ≤ fuel) (stop : EndsStatement (ahead rest final)) :
    assignment dialect fuel name
        ⟨first :: (tokens ++ mark :: (right ++ rest)), final, last, warnings⟩
      = .ok (.assignment (name :: names) value (some (span dialect first (tokens ++ mark :: right))))
          ⟨rest, final, stopAfter mark.stop right, warnings⟩ := by
  rw [assignment, take_bind, bind_of_ok (furtherNames_complete list enough (by simp [assignMark])),
    takeMark_bind assignMark,
    bind_of_ok (expression_complete derived enough' stop.toEndsExpression), rangeFrom_bind]
  simp [span, pure_apply]

theorem simpleStatement_assignment {fuel : Nat} {first mark : Token} {name : Text}
    {tokens right : List Token} {names : List Text} {value : Expression}
    (ident : first.lexeme = .identifier name) (list : DerivesFurtherNames tokens names)
    (assignMark : mark.lexeme = .punctuation .assign)
    (derived : DerivesExpression dialect right value) (enough : tokens.length < fuel)
    (enough' : 2 * right.length ≤ fuel) (stop : EndsStatement (ahead rest final)) :
    simpleStatement dialect fuel
        ⟨first :: (tokens ++ mark :: (right ++ rest)), final, last, warnings⟩
      = .ok (.assignment (name :: names) value (some (span dialect first (tokens ++ mark :: right))))
          ⟨rest, final, stopAfter mark.stop right, warnings⟩ := by
  have read : assignment dialect fuel name
      ⟨first :: (tokens ++ mark :: (right ++ rest)), final, last, warnings⟩ = .ok _ _ :=
    assignment_complete list assignMark derived enough enough' stop
  rw [← read, simpleStatement, peek_bind, peekSecond_bind]
  cases list with
  | none =>
    simp only [next_lexeme, ahead_cons, ident, List.tail_cons, List.nil_append, List.headD_cons,
      assignMark]
  | some commaMark _ _ =>
    simp only [next_lexeme, ahead_cons, ident, List.tail_cons, List.cons_append, List.headD_cons,
      commaMark]

theorem simpleStatement_call {fuel : Nat} {tokens : List Token} {name : Text}
    {arguments : List Expression} {location : Option Location}
    (derived : DerivesExpression dialect tokens (.functionCall name arguments location))
    (enough : 2 * tokens.length ≤ fuel) (stop : EndsStatement (ahead rest final)) :
    simpleStatement dialect fuel ⟨tokens ++ rest, final, last, warnings⟩
      = .ok (.expression (.functionCall name arguments location))
          ⟨rest, final, stopAfter last tokens, warnings⟩ := by
  have read : callStatement dialect fuel ⟨tokens ++ rest, final, last, warnings⟩
      = .ok (.expression (.functionCall name arguments location))
          ⟨rest, final, stopAfter last tokens, warnings⟩ := by
    rw [callStatement, peek_bind,
      bind_of_ok (expression_complete derived enough stop.toEndsExpression)]
    rfl
  rw [← read, simpleStatement, peek_bind, peekSecond_bind]
  cases derived with
  | call ident openMark _ _ =>
    simp only [List.cons_append, next_lexeme, ahead_cons, ident, List.tail_cons, List.headD_cons,
      openMark]

/-! ## Blocks -/

abbrev CompleteBlock (fuel : Nat) (dialect : Dialect) : Prop :=
  Complete (block dialect fuel) (DerivesBlock dialect) Block.defaultOnlySwitches
    (3 * · ≤ fuel + 1) fun _ => True

abbrev CompleteStatements (fuel : Nat) (dialect : Dialect) : Prop :=
  Complete (statements dialect fuel) (Closed .closeBrace (DerivesStatements dialect))
    statementsDefaultOnlySwitches (3 * · ≤ fuel + 1) fun _ => True

abbrev CompleteStatement (fuel : Nat) (dialect : Dialect) : Prop :=
  Complete (statement dialect fuel) (DerivesStatement dialect) Statement.defaultOnlySwitches
    (3 * · ≤ fuel) EndsStatement

abbrev CompleteCases (fuel : Nat) (dialect : Dialect) : Prop :=
  Complete (cases dialect fuel false) (DerivesCases dialect) casesDefaultOnlySwitches
    (3 * · + 1 ≤ fuel) EndsStatement

theorem block_succ_complete {fuel : Nat} (ih : CompleteStatements fuel dialect) :
    CompleteBlock (fuel + 1) dialect := by
  rintro _ rest final last warnings _ ⟨openMark, list, closeMark⟩ enough -
  rename_i opening closing inner inside
  simp only [List.length_cons] at enough
  have read := ih.read rest final opening.stop warnings
    ⟨inner, closing, rfl, closeMark, list⟩ (by omega) trivial
  rw [block, List.cons_append, takeMark_bind openMark, bind_of_ok read, rangeFrom_bind]
  rfl

theorem ends_statements {inner : List Token} {closing : Token} {list : List Statement}
    (derived : DerivesStatements dialect inner list)
    (closeMark : closing.lexeme = .punctuation .closeBrace) :
    EndsStatement (ahead (inner ++ closing :: rest) final) := by
  cases derived with
  | none =>
    rw [List.nil_append, ahead_cons, closeMark]
    exact .closeBrace
  | some head _ =>
    obtain ⟨token, others, rfl, starts⟩ := head_statement head
    exact .of_starts starts

theorem statements_succ_complete {fuel : Nat} (first : CompleteStatement fuel dialect)
    (ih : CompleteStatements fuel dialect) : CompleteStatements (fuel + 1) dialect := by
  rintro _ rest final last warnings list ⟨inner, closing, rfl, closeMark, derived⟩ enough -
  rw [statements, peek_bind]
  cases derived with
  | none =>
    simp only [List.nil_append, List.cons_append, next_lexeme, ahead_cons, closeMark]
    rw [take_bind]
    simp [pure_apply, statementsDefaultOnlySwitches]
  | @some tokens others statement list head tail =>
    have some := length_statement_pos head
    simp only [List.length_append, List.length_singleton] at enough
    have read := first.read (others ++ closing :: rest) final last warnings head (by omega)
      (ends_statements tail closeMark)
    have read' := ih.read rest final (stopAfter last tokens) (warnings ++ statement.defaultOnlySwitches)
      ⟨others, closing, rfl, closeMark, tail⟩ (by simp; omega) trivial
    have whole : (do return (← Parser.statement dialect fuel) :: (← statements dialect fuel) : Parser _)
        ⟨tokens ++ (others ++ closing :: rest), final, last, warnings⟩
        = .ok (statement :: list) ⟨rest, final, closing.stop, warnings
          ++ (statement.defaultOnlySwitches ++ statementsDefaultOnlySwitches list)⟩ := by
      simp only [List.append_assoc, List.cons_append, List.nil_append] at read'
      rw [bind_of_ok read, bind_of_ok read']
      simp [pure_apply]
    obtain ⟨token, behind, rfl, starts⟩ := head_statement head
    simp only [List.append_assoc, List.cons_append, List.nil_append, next_lexeme, ahead_cons,
      stopAfter_append, stopAfter_cons, stopAfter_nil, statementsDefaultOnlySwitches] at whole ⊢
    rw [← whole]
    cases lexeme : token.lexeme <;> simp only [lexeme, StartsStatement] at starts ⊢
    case punctuation mark => cases mark <;> first | rfl | exact starts.elim

theorem cases_succ_complete {fuel : Nat} (inner : CompleteBlock fuel dialect)
    (ih : CompleteCases fuel dialect) : CompleteCases (fuel + 1) dialect := by
  intro tokens rest final last warnings list derived enough stop
  rw [cases, peek_bind]
  cases derived with
  | none =>
    simp only [List.nil_append, next_lexeme]
    cases lexeme : ahead rest final <;> simp only [casesDefaultOnlySwitches, List.append_nil]
    case keyword word =>
      cases word
      case caseWord => exact (stop.caseWord lexeme).elim
      case defaultWord => exact (stop.defaultWord lexeme).elim
      all_goals rfl
    all_goals rfl
  | @default word tokens body keyword derived =>
    simp only [List.length_cons] at enough
    obtain ⟨fuel, rfl⟩ : ∃ less, fuel = less + 1 := ⟨fuel - 1, by omega⟩
    have nothing (last : Nat) (warnings : List Location) :
        cases dialect (fuel + 1) true ⟨rest, final, last, warnings⟩
          = .ok [] ⟨rest, final, last, warnings⟩ := by
      rw [cases, peek_bind, next_lexeme]
      cases lexeme : ahead rest final
      case keyword word =>
        cases word
        case caseWord => exact (stop.caseWord lexeme).elim
        case defaultWord => exact (stop.defaultWord lexeme).elim
        all_goals rfl
      all_goals rfl
    simp only [List.cons_append, next_lexeme, ahead_cons, keyword]
    rw [if_neg Bool.false_ne_true, take_bind, bind_of_ok (inner derived (by omega) trivial),
      rangeFrom_bind, bind_of_ok (nothing _ _)]
    simp [pure_apply, casesDefaultOnlySwitches, Case.defaultOnlySwitches, span, Cursor.next]
  | @case word tokens inside others value body list keyword tested derived tail =>
    simp only [List.length_cons, List.length_append] at enough
    obtain ⟨token, typing, rfl, kind, text, lexeme⟩ : ∃ token typing, tokens = token :: typing ∧
        ∃ kind text, literalOf? token.lexeme = some (kind, text) := by
      cases tested with
      | mk lexeme _ => exact ⟨_, _, rfl, _, _, lexeme⟩
    have noColon : ahead (inside ++ (others ++ rest)) final ≠ .punctuation .colon := by
      simp [ahead_block derived]
    simp only [List.cons_append, List.append_assoc, next_lexeme, ahead_cons, keyword]
    rw [if_neg Bool.false_ne_true, take_bind, peek_bind]
    simp only [next_lexeme, ahead_cons, lexeme]
    rw [bind_of_ok (literal_complete lexeme tested noColon),
      bind_of_ok (inner derived (by omega) trivial), rangeFrom_bind,
      bind_of_ok (ih tail (by omega) stop)]
    simp [pure_apply, casesDefaultOnlySwitches, Case.defaultOnlySwitches, span, Cursor.next]

theorem switchOver_complete (token : Token) (value : Expression) {location : Location}
    {list : List Case} (some : list ≠ []) :
    switchOver token value location list ⟨rest, final, last, warnings⟩
      = .ok (.switch value list (Option.some location))
          ⟨rest, final, last, warnings ++ defaultOnly list (Option.some location)⟩ := by
  match list with
  | [] => exact (some rfl).elim
  | [only] =>
    rw [switchOver]
    by_cases default : only.isDefault = true
    · simp only [default, if_true, warn_bind, defaultOnly]
      rfl
    · simp only [default, defaultOnly]
      simp [pure_apply]
  | first :: second :: others => simp [switchOver, defaultOnly, pure_apply]

/-- Behind the scrutinee of a switch stands a case, the default, or the end of the switch. -/
theorem ends_cases {tokens : List Token} {list : List Case} (derived : DerivesCases dialect tokens list)
    (stop : EndsExpression (ahead rest final)) : EndsExpression (ahead (tokens ++ rest) final) := by
  cases derived with
  | none => exact stop
  | default keyword _ | case keyword _ _ _ => exact ⟨by simp [keyword], by simp [keyword]⟩

theorem ends_block {tokens : List Token} {block : Block} (derived : DerivesBlock dialect tokens block) :
    EndsExpression (ahead (tokens ++ rest) final) :=
  ⟨by simp [ahead_block derived], by simp [ahead_block derived]⟩

theorem statement_succ_complete {fuel : Nat} (inner : CompleteBlock fuel dialect)
    (list : CompleteCases fuel dialect) : CompleteStatement (fuel + 1) dialect := by
  intro tokens rest final last warnings value derived enough stop
  rw [statement, peek_bind]
  cases derived with
  | block derived =>
    rw [next_lexeme, ahead_block derived]
    exact bind_of_ok (inner derived enough trivial)
  | @functionDefinition word ident opening closing name inside returned tokens parameters results body
      keyword named openMark taken closeMark given derived =>
    simp only [List.length_cons, List.length_append] at enough
    simp only [List.cons_append, List.append_assoc, next_lexeme, ahead_cons, keyword]
    rw [take_bind, takeName_bind named]
    dsimp only
    rw [bind_of_ok (parameterList_complete openMark taken closeMark (by omega)),
      bind_of_ok (resultList_complete given (by omega) (ahead_block derived)),
      bind_of_ok (inner derived (by omega) trivial), rangeFrom_bind]
    simp [pure_apply, span, Cursor.next, Statement.defaultOnlySwitches]
  | @declaration word tokens names keyword list =>
    simp only [List.length_cons] at enough
    simp only [List.cons_append, next_lexeme, ahead_cons, keyword]
    rw [variableDeclaration_none_complete list (by omega) stop]
    simp [Statement.defaultOnlySwitches]
  | @initialisation word mark tokens right names value keyword list assignMark derived =>
    simp only [List.length_cons, List.length_append] at enough
    simp only [List.cons_append, List.append_assoc, next_lexeme, ahead_cons, keyword]
    rw [variableDeclaration_some_complete list assignMark derived (by omega) (by omega) stop]
    simp [Statement.defaultOnlySwitches]
  | @assignment first mark name tokens right names value ident list assignMark derived =>
    simp only [List.length_cons, List.length_append] at enough
    simp only [List.cons_append, List.append_assoc, next_lexeme, ahead_cons, ident]
    rw [simpleStatement_assignment ident list assignMark derived (by omega) (by omega) stop]
    simp [Statement.defaultOnlySwitches]
  | @call _ name arguments location derived =>
    have read : simpleStatement dialect fuel ⟨tokens ++ rest, final, last, warnings⟩ = .ok _ _ :=
      simpleStatement_call derived (by omega) stop
    cases derived with
    | call ident openMark list closeMark =>
      simp only [List.cons_append, next_lexeme, ahead_cons, ident] at read ⊢
      rw [read]
      simp [Statement.defaultOnlySwitches]
  | @switch word tokens inside value cases keyword derived branches some =>
    have positive := length_expression_pos derived
    simp only [List.length_cons, List.length_append] at enough
    simp only [List.cons_append, List.append_assoc, next_lexeme, ahead_cons, keyword]
    rw [take_bind,
      bind_of_ok (expression_complete derived (by omega) (ends_cases branches stop.toEndsExpression)),
      bind_of_ok (list branches (by omega) stop), rangeFrom_bind, switchOver_complete _ _ some]
    simp [Cursor.next, span, Statement.defaultOnlySwitches]
  | @ifThen word tokens inside condition body keyword tested derived =>
    have positive := length_expression_pos tested
    simp only [List.length_cons, List.length_append] at enough
    simp only [List.cons_append, List.append_assoc, next_lexeme, ahead_cons, keyword]
    rw [take_bind, bind_of_ok (expression_complete tested (by omega) (ends_block derived)),
      bind_of_ok (inner derived (by omega) trivial), rangeFrom_bind]
    simp [pure_apply, span, Cursor.next, Statement.defaultOnlySwitches]
  | @forLoop word before tokens behind inside condition pre post body keyword prepared tested advanced
      derived =>
    simp only [List.length_cons, List.length_append] at enough
    simp only [List.cons_append, List.append_assoc, next_lexeme, ahead_cons, keyword]
    rw [take_bind, bind_of_ok (inner prepared (by omega) trivial),
      bind_of_ok (expression_complete tested (by omega) (ends_block advanced)),
      bind_of_ok (inner advanced (by omega) trivial), bind_of_ok (inner derived (by omega) trivial),
      rangeFrom_bind]
    simp [pure_apply, span, Cursor.next, Statement.defaultOnlySwitches]
  | @breakLoop word keyword | @continueLoop word keyword =>
    simp only [List.cons_append, List.nil_append, next_lexeme, ahead_cons, keyword]
    rw [take_bind]
    simp [pure_apply, span, Cursor.next, Statement.defaultOnlySwitches]

theorem blocks_complete (fuel : Nat) :
    CompleteBlock fuel dialect ∧ CompleteStatements fuel dialect ∧ CompleteStatement fuel dialect ∧
      CompleteCases fuel dialect := by
  induction fuel with
  | zero =>
    refine ⟨?_, ?_, ?_, ?_⟩
    · rintro _ _ _ _ _ _ ⟨openMark, list, closeMark⟩ enough
      simp only [List.length_cons] at enough
      omega
    · rintro _ _ _ _ _ _ ⟨inner, closing, rfl, -, -⟩ enough
      simp only [List.length_append, List.length_singleton] at enough
      omega
    · intro tokens _ _ _ _ _ derived enough
      have := length_statement_pos derived
      omega
    · intro tokens _ _ _ _ _ _ enough
      omega
  | succ fuel ih =>
    obtain ⟨inner, list, single, branches⟩ := ih
    exact ⟨block_succ_complete list, statements_succ_complete single list,
      statement_succ_complete inner branches, cases_succ_complete inner branches⟩

/-- The tokens of a block and nothing behind them are read with the bound of `parseTokens`. -/
theorem program_complete {tokens : List Token} {value : Block} (derived : DerivesBlock dialect tokens value)
    (closed : final.lexeme = .eof) :
    program dialect (bound tokens) ⟨tokens, final, last, warnings⟩
      = .ok value ⟨[], final, stopAfter last tokens, warnings ++ value.defaultOnlySwitches⟩ := by
  have read := (blocks_complete (bound tokens)).1.read [] final last warnings derived (by simp only [bound]; omega) trivial
  rw [List.append_nil] at read
  rw [program, bind_of_ok read, peek_bind]
  simp only [next_lexeme, ahead, List.headD_nil, closed]
  rfl

end ContractAsm.Ir.Parser

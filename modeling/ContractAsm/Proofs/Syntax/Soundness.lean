import ContractAsm.Proofs.Syntax.Cursor

/-!
# What is read follows the grammar

Every reader that returns a tree has taken tokens that the tree is derived from, and has
warned of the switches in it that have a default alone. The bound on nesting plays no part:
a reader that uses it up returns nothing.
-/

namespace ContractAsm.Ir.Parser

open Grammar

/-- A reader takes tokens from which its value is derived, and warns of what it finds. -/
def Sound {α : Type} (reader : Parser α) (derives : List Token → α → Prop)
    (found : α → List Location) : Prop :=
  ∀ ⦃before after : Cursor⦄ ⦃value : α⦄, before.final.lexeme = .eof → reader before = .ok value after →
    ∃ taken, derives taken value ∧ before.Passes taken (found value) after

/-- A reader without warnings. -/
abbrev Quiet {α : Type} (reader : Parser α) (derives : List Token → α → Prop) : Prop :=
  Sound reader derives fun _ => []

theorem exhausted_sound {α : Type} (derives : List Token → α → Prop) (found : α → List Location) :
    Sound (do fail .exhausted (← peek)) derives found :=
  fun _ _ _ _ h => (of_fail h).elim

variable {dialect : Dialect}

/-! ## Types and names -/

theorem annotation_sound (missing : SyntaxFault) (owner : Token) :
    Quiet ( annotation dialect missing owner) (DerivesType dialect) := by
  intro before after type closed h
  unfold annotation at h
  rw [isNextMark_bind] at h
  by_cases colon : before.next.lexeme = .punctuation .colon
  · simp only [colon, decide_true, if_true] at h
    obtain ⟨mark, middle, taken, h⟩ := of_bind h
    obtain ⟨rfl, passed⟩ := take_passes closed (by simp [colon]) taken
    by_cases mode : dialect.typed = true
    · simp only [mode, if_true] at h
      obtain ⟨⟨name, token⟩, last, named, h⟩ := of_bind h
      obtain ⟨ident, further⟩ := takeName_passes (passed.closed closed) named
      cases h
      exact ⟨_, .typed mode colon ident, passed.cons further⟩
    · simp only [mode] at h
      exact (of_fail h).elim
  · simp only [colon, decide_false] at h
    by_cases mode : dialect.typed = true
    · simp only [mode, if_true] at h
      exact (of_fail h).elim
    · simp only [mode] at h
      cases h
      exact ⟨[], .untyped (Bool.eq_false_iff.mpr mode), .refl _⟩

theorem typedName_sound : Quiet (typedName dialect) (DerivesTypedName dialect) := by
  intro before after declared closed h
  rw [typedName] at h
  obtain ⟨⟨name, token⟩, middle, named, h⟩ := of_bind h
  obtain ⟨ident, passed⟩ := takeName_passes closed named
  obtain ⟨type, last, typed, h⟩ := of_bind h
  obtain ⟨taken, derived, further⟩ := annotation_sound _ _ (passed.closed closed) typed
  cases h
  exact ⟨_, .mk ident derived, passed.cons further⟩

theorem furtherTypedNames_sound (fuel : Nat) :
    Quiet (furtherTypedNames dialect fuel) (DerivesFurtherTypedNames dialect) := by
  induction fuel with
  | zero => exact exhausted_sound _ _
  | succ fuel ih =>
    intro before after names closed h
    rw [furtherTypedNames, isNextMark_bind] at h
    by_cases comma : before.next.lexeme = .punctuation .comma
    · simp only [comma, decide_true, if_true] at h
      obtain ⟨mark, middle, taken, h⟩ := of_bind h
      obtain ⟨rfl, passed⟩ := take_passes closed (by simp [comma]) taken
      obtain ⟨declared, second, first, h⟩ := of_bind h
      obtain ⟨_, head, further⟩ := typedName_sound (passed.closed closed) first
      have passed := passed.cons further
      obtain ⟨others, last, rest, h⟩ := of_bind h
      obtain ⟨_, tail, further⟩ := ih (passed.closed closed) rest
      cases h
      exact ⟨_, .some comma head tail, passed.quiet further⟩
    · simp only [comma, decide_false] at h
      cases h
      exact ⟨[], .none, .refl _⟩

theorem typedNames_sound (fuel : Nat) :
    Quiet (typedNames dialect fuel) (DerivesTypedNames dialect) := by
  intro before after names closed h
  rw [typedNames] at h
  obtain ⟨declared, middle, first, h⟩ := of_bind h
  obtain ⟨_, head, passed⟩ := typedName_sound closed first
  obtain ⟨others, last, rest, h⟩ := of_bind h
  obtain ⟨_, tail, further⟩ := furtherTypedNames_sound fuel (passed.closed closed) rest
  cases h
  exact ⟨_, .mk head tail, passed.quiet further⟩

theorem furtherNames_sound (fuel : Nat) : Quiet (furtherNames fuel) DerivesFurtherNames := by
  induction fuel with
  | zero => exact exhausted_sound _ _
  | succ fuel ih =>
    intro before after names closed h
    rw [furtherNames, isNextMark_bind] at h
    by_cases comma : before.next.lexeme = .punctuation .comma
    · simp only [comma, decide_true, if_true] at h
      obtain ⟨mark, middle, taken, h⟩ := of_bind h
      obtain ⟨rfl, passed⟩ := take_passes closed (by simp [comma]) taken
      obtain ⟨⟨name, token⟩, second, named, h⟩ := of_bind h
      obtain ⟨ident, further⟩ := takeName_passes (passed.closed closed) named
      have passed := passed.cons further
      obtain ⟨others, last, rest, h⟩ := of_bind h
      obtain ⟨_, tail, further⟩ := ih (passed.closed closed) rest
      cases h
      exact ⟨_, .some comma ident tail, passed.quiet further⟩
    · simp only [comma, decide_false] at h
      cases h
      exact ⟨[], .none, .refl _⟩

theorem parameterList_sound (fuel : Nat) :
    Quiet (parameterList dialect fuel) fun taken parameters =>
      ∃ opening inner closing, taken = opening :: (inner ++ [closing]) ∧
        opening.lexeme = .punctuation .openParen ∧ DerivesParameters dialect inner parameters ∧
        closing.lexeme = .punctuation .closeParen := by
  intro before after parameters closed h
  rw [parameterList] at h
  obtain ⟨opening, middle, first, h⟩ := of_bind h
  obtain ⟨openMark, passed⟩ := takeMark_passes closed first
  have closes {inner : List Token} {names : List TypedName} {third : Cursor}
      (list : DerivesParameters dialect inner names) (further : middle.Passes inner [] third)
      (h : (do let _ ← takeMark .closeParen; pure names : Parser _) third = .ok parameters after) :
      ∃ taken, (∃ opening inner closing, taken = opening :: (inner ++ [closing]) ∧
        opening.lexeme = .punctuation .openParen ∧ DerivesParameters dialect inner parameters ∧
        closing.lexeme = .punctuation .closeParen) ∧ before.Passes taken [] after := by
    have passed := passed.cons further
    obtain ⟨closing, last, taken, h⟩ := of_bind h
    obtain ⟨closeMark, further⟩ := takeMark_passes (passed.closed closed) taken
    cases h
    exact ⟨_, ⟨opening, inner, closing, rfl, openMark, list, closeMark⟩, passed.quiet further⟩
  rw [isNextMark_bind] at h
  by_cases none : middle.next.lexeme = .punctuation .closeParen
  · simp only [none, decide_true, if_true] at h
    exact closes .none (.refl _) h
  · simp only [none, decide_false] at h
    obtain ⟨names, third, given, h⟩ := of_bind h
    obtain ⟨inner, list, further⟩ := typedNames_sound fuel (passed.closed closed) given
    exact closes (.some list) further h

theorem resultList_sound (fuel : Nat) :
    Quiet (resultList dialect fuel) (DerivesResults dialect) := by
  intro before after results closed h
  rw [resultList, isNextMark_bind] at h
  by_cases arrow : before.next.lexeme = .punctuation .arrow
  · simp only [arrow, decide_true, if_true] at h
    obtain ⟨mark, middle, taken, h⟩ := of_bind h
    obtain ⟨rfl, passed⟩ := take_passes closed (by simp [arrow]) taken
    obtain ⟨_, list, further⟩ := typedNames_sound fuel (passed.closed closed) h
    exact ⟨_, .some arrow list, passed.cons further⟩
  · simp only [arrow, decide_false] at h
    cases h
    exact ⟨[], .none, .refl _⟩

/-! ## Expressions -/

theorem literal_sound {before after : Cursor} {kind : Literal.Kind} {value : Text} {result : Literal}
    (closed : before.final.lexeme = .eof) (lexeme : literalOf? before.next.lexeme = some (kind, value))
    (h : literal dialect kind value before = .ok result after) :
    ∃ taken, DerivesLiteral dialect taken result ∧ before.Passes taken [] after := by
  rw [literal] at h
  obtain ⟨token, middle, taken, h⟩ := of_bind h
  obtain ⟨rfl, passed⟩ := take_passes closed (by intro eof; simp [eof, literalOf?] at lexeme) taken
  obtain ⟨type, last, typed, h⟩ := of_bind h
  obtain ⟨_, derived, further⟩ := annotation_sound _ _ (passed.closed closed) typed
  have passed := passed.cons further
  rw [rangeFrom_bind, passed.range] at h
  cases h
  exact ⟨_, .mk lexeme derived, passed⟩

def Closed {α : Type} (mark : Punctuation) (derives : List Token → α → Prop) (taken : List Token)
    (value : α) : Prop :=
  ∃ inner closing, taken = inner ++ [closing] ∧ closing.lexeme = .punctuation mark ∧
    derives inner value

theorem expression_succ_sound {fuel : Nat}
    (ih : Quiet (callArguments dialect fuel) (Closed .closeParen (DerivesArguments dialect))) :
    Quiet (expression dialect (fuel + 1)) (DerivesExpression dialect) := by
  intro before after value closed h
  rw [expression, peek_bind] at h
  by_cases ident : ∃ name, before.next.lexeme = .identifier name
  · obtain ⟨name, ident⟩ := ident
    simp only [ident] at h
    obtain ⟨token, middle, taken, h⟩ := of_bind h
    obtain ⟨rfl, passed⟩ := take_passes closed (by simp [ident]) taken
    rw [isNextMark_bind] at h
    by_cases open' : middle.next.lexeme = .punctuation .openParen
    · simp only [open', decide_true, if_true] at h
      obtain ⟨opening, second, taken, h⟩ := of_bind h
      obtain ⟨rfl, further⟩ := take_passes (passed.closed closed) (by simp [open']) taken
      have passed := passed.cons further
      obtain ⟨arguments, third, given, h⟩ := of_bind h
      obtain ⟨_, ⟨inner, closing, rfl, closeMark, list⟩, further⟩ := ih (passed.closed closed) given
      have passed := passed.quiet further
      rw [rangeFrom_bind, passed.range] at h
      cases h
      exact ⟨_, .call ident open' list closeMark, passed⟩
    · simp only [open', decide_false] at h
      cases h
      exact ⟨_, .identifier ident, passed⟩
  · obtain ⟨kind, text, lexeme, h⟩ : ∃ kind text, literalOf? before.next.lexeme = some (kind, text) ∧
        (do return Expression.literal (← literal dialect kind text) : Parser _) before
          = .ok value after := by
      cases lexeme : before.next.lexeme <;> simp only [lexeme, literalOf?] at h ⊢
      case identifier name => exact (ident ⟨name, lexeme⟩).elim
      case number => exact ⟨_, _, rfl, h⟩
      case string => exact ⟨_, _, rfl, h⟩
      case keyword word =>
        cases word
        case trueWord => exact ⟨_, _, rfl, h⟩
        case falseWord => exact ⟨_, _, rfl, h⟩
        all_goals exact (of_fail h).elim
      all_goals exact (of_fail h).elim
    obtain ⟨result, last, given, h⟩ := of_bind h
    obtain ⟨taken, derived, passed⟩ := literal_sound closed lexeme given
    cases h
    exact ⟨taken, .literal derived, passed⟩

theorem callArguments_succ_sound {fuel : Nat} (first : Quiet (expression dialect fuel) (DerivesExpression dialect))
    (ih : Quiet (furtherArguments dialect fuel) (Closed .closeParen (DerivesFurtherArguments dialect))) :
    Quiet (callArguments dialect (fuel + 1)) (Closed .closeParen (DerivesArguments dialect)) := by
  intro before after arguments closed h
  rw [callArguments, isNextMark_bind] at h
  by_cases close : before.next.lexeme = .punctuation .closeParen
  · simp only [close, decide_true, if_true] at h
    obtain ⟨closing, last, taken, h⟩ := of_bind h
    obtain ⟨rfl, passed⟩ := take_passes closed (by simp [close]) taken
    cases h
    exact ⟨_, ⟨[], _, rfl, close, .none⟩, passed⟩
  · simp only [close, decide_false] at h
    obtain ⟨head, middle, given, h⟩ := of_bind h
    obtain ⟨_, derived, passed⟩ := first closed given
    obtain ⟨others, last, rest, h⟩ := of_bind h
    obtain ⟨_, ⟨inner, closing, rfl, closeMark, list⟩, further⟩ := ih (passed.closed closed) rest
    cases h
    exact ⟨_, ⟨_, closing, (List.append_assoc ..).symm, closeMark, .some derived list⟩,
      passed.quiet further⟩

theorem furtherArguments_succ_sound {fuel : Nat}
    (first : Quiet (expression dialect fuel) (DerivesExpression dialect))
    (ih : Quiet (furtherArguments dialect fuel) (Closed .closeParen (DerivesFurtherArguments dialect))) :
    Quiet (furtherArguments dialect (fuel + 1))
      (Closed .closeParen (DerivesFurtherArguments dialect)) := by
  intro before after arguments closed h
  rw [furtherArguments, isNextMark_bind] at h
  by_cases comma : before.next.lexeme = .punctuation .comma
  · simp only [comma, decide_true, if_true] at h
    obtain ⟨mark, middle, taken, h⟩ := of_bind h
    obtain ⟨rfl, passed⟩ := take_passes closed (by simp [comma]) taken
    obtain ⟨head, second, given, h⟩ := of_bind h
    obtain ⟨_, derived, further⟩ := first (passed.closed closed) given
    have passed := passed.cons further
    obtain ⟨others, last, rest, h⟩ := of_bind h
    obtain ⟨_, ⟨inner, closing, rfl, closeMark, list⟩, further⟩ := ih (passed.closed closed) rest
    cases h
    exact ⟨_, ⟨_, closing, (List.append_assoc ..).symm, closeMark, .some comma derived list⟩,
      passed.quiet further⟩
  · simp only [comma, decide_false] at h
    obtain ⟨closing, last, taken, h⟩ := of_bind h
    obtain ⟨closeMark, passed⟩ := takeMark_passes closed taken
    cases h
    exact ⟨_, ⟨[], closing, rfl, closeMark, .none⟩, passed⟩

/-- Every bound at once, since the three readers call each other. -/
theorem expressions_sound (fuel : Nat) :
    Quiet (expression dialect fuel) (DerivesExpression dialect) ∧
      Quiet (callArguments dialect fuel) (Closed .closeParen (DerivesArguments dialect)) ∧
      Quiet (furtherArguments dialect fuel) (Closed .closeParen (DerivesFurtherArguments dialect)) := by
  induction fuel with
  | zero => exact ⟨exhausted_sound _ _, exhausted_sound _ _, exhausted_sound _ _⟩
  | succ fuel ih =>
    obtain ⟨first, arguments, further⟩ := ih
    exact ⟨expression_succ_sound arguments, callArguments_succ_sound first further,
      furtherArguments_succ_sound first further⟩

theorem expression_sound (fuel : Nat) : Quiet (expression dialect fuel) (DerivesExpression dialect) :=
  (expressions_sound fuel).1

/-! ## Statements without blocks -/

abbrev SoundStatement (reader : Parser Statement) (dialect : Dialect) : Prop :=
  Sound reader (DerivesStatement dialect) Statement.defaultOnlySwitches

theorem variableDeclaration_sound {fuel : Nat} {before after : Cursor} {statement : Statement}
    (closed : before.final.lexeme = .eof) (keyword : before.next.lexeme = .keyword .letWord)
    (h : variableDeclaration dialect fuel before = .ok statement after) :
    ∃ taken, DerivesStatement dialect taken statement ∧
      before.Passes taken statement.defaultOnlySwitches after := by
  rw [variableDeclaration] at h
  obtain ⟨word, middle, taken, h⟩ := of_bind h
  obtain ⟨rfl, passed⟩ := take_passes closed (by simp [keyword]) taken
  obtain ⟨names, second, given, h⟩ := of_bind h
  obtain ⟨_, list, further⟩ := typedNames_sound fuel (passed.closed closed) given
  have passed := passed.cons further
  rw [isNextMark_bind] at h
  by_cases assign : second.next.lexeme = .punctuation .assign
  · simp only [assign, decide_true, if_true] at h
    obtain ⟨mark, third, taken, h⟩ := of_bind h
    obtain ⟨rfl, further⟩ := take_passes (passed.closed closed) (by simp [assign]) taken
    have passed := passed.quiet further
    obtain ⟨value, last, given, h⟩ := of_bind h
    obtain ⟨_, derived, further⟩ := expression_sound fuel (passed.closed closed) given
    have passed := passed.quiet further
    simp only [List.cons_append, List.append_assoc, List.nil_append] at passed
    rw [rangeFrom_bind, passed.range] at h
    cases h
    exact ⟨_, .initialisation keyword list assign derived, passed⟩
  · simp only [assign, decide_false] at h
    rw [if_neg Bool.false_ne_true, rangeFrom_bind, passed.range] at h
    cases h
    exact ⟨_, .declaration keyword list, passed⟩

theorem assignment_sound {fuel : Nat} {before after : Cursor} {name : Text} {statement : Statement}
    (closed : before.final.lexeme = .eof) (ident : before.next.lexeme = .identifier name)
    (h : assignment dialect fuel name before = .ok statement after) :
    ∃ taken, DerivesStatement dialect taken statement ∧
      before.Passes taken statement.defaultOnlySwitches after := by
  rw [assignment] at h
  obtain ⟨first, middle, taken, h⟩ := of_bind h
  obtain ⟨rfl, passed⟩ := take_passes closed (by simp [ident]) taken
  obtain ⟨names, second, given, h⟩ := of_bind h
  obtain ⟨_, list, further⟩ := furtherNames_sound fuel (passed.closed closed) given
  have passed := passed.cons further
  obtain ⟨mark, third, taken, h⟩ := of_bind h
  obtain ⟨assignMark, further⟩ := takeMark_passes (passed.closed closed) taken
  have passed := passed.quiet further
  obtain ⟨value, last, given, h⟩ := of_bind h
  obtain ⟨_, derived, further⟩ := expression_sound fuel (passed.closed closed) given
  have passed := passed.quiet further
  simp only [List.cons_append, List.append_assoc, List.nil_append] at passed
  rw [rangeFrom_bind, passed.range] at h
  cases h
  exact ⟨_, .assignment ident list assignMark derived, passed⟩

theorem callStatement_sound (fuel : Nat) : SoundStatement (callStatement dialect fuel) dialect := by
  intro before after statement closed h
  rw [callStatement, peek_bind] at h
  obtain ⟨value, last, given, h⟩ := of_bind h
  obtain ⟨_, derived, passed⟩ := expression_sound fuel closed given
  cases value
  case functionCall => cases h; exact ⟨_, .call derived, passed⟩
  all_goals exact (of_fail h).elim

theorem simpleStatement_sound (fuel : Nat) : SoundStatement (simpleStatement dialect fuel) dialect := by
  intro before after statement closed h
  rw [simpleStatement, peek_bind, peekSecond_bind] at h
  cases ident : before.next.lexeme <;>
    cases mark : (before.rest.tail.headD before.final).lexeme <;> simp only [ident, mark] at h
  case identifier.punctuation name found =>
    cases found
    case assign => exact assignment_sound closed ident h
    case comma => exact assignment_sound closed ident h
    all_goals exact callStatement_sound fuel closed h
  all_goals exact callStatement_sound fuel closed h

/-! ## Blocks -/

abbrev SoundBlock (reader : Parser Block) (dialect : Dialect) : Prop :=
  Sound reader (DerivesBlock dialect) Block.defaultOnlySwitches

abbrev SoundCases (reader : Parser (List Case)) (dialect : Dialect) : Prop :=
  Sound reader (DerivesCases dialect) casesDefaultOnlySwitches

abbrev SoundStatements (reader : Parser (List Statement)) (dialect : Dialect) : Prop :=
  Sound reader (Closed .closeBrace (DerivesStatements dialect)) statementsDefaultOnlySwitches

theorem block_succ_sound {fuel : Nat} (ih : SoundStatements (statements dialect fuel) dialect) :
    SoundBlock (block dialect (fuel + 1)) dialect := by
  intro before after value closed h
  rw [block] at h
  obtain ⟨opening, middle, taken, h⟩ := of_bind h
  obtain ⟨openMark, passed⟩ := takeMark_passes closed taken
  obtain ⟨inside, last, given, h⟩ := of_bind h
  obtain ⟨_, ⟨inner, closing, rfl, closeMark, list⟩, further⟩ := ih (passed.closed closed) given
  have passed := passed.cons further
  rw [rangeFrom_bind, passed.range] at h
  cases h
  exact ⟨_, .braces openMark list closeMark, passed⟩

theorem statements_succ_sound {fuel : Nat} (first : SoundStatement (statement dialect fuel) dialect)
    (ih : SoundStatements (statements dialect fuel) dialect) :
    SoundStatements (statements dialect (fuel + 1)) dialect := by
  intro before after value closed h
  rw [statements, peek_bind] at h
  by_cases close : before.next.lexeme = .punctuation .closeBrace
  · simp only [close] at h
    obtain ⟨closing, last, taken, h⟩ := of_bind h
    obtain ⟨rfl, passed⟩ := take_passes closed (by simp [close]) taken
    cases h
    exact ⟨_, ⟨[], _, rfl, close, .none⟩, passed⟩
  · have h : (do return (← statement dialect fuel) :: (← statements dialect fuel) : Parser _) before
        = .ok value after := by
      cases lexeme : before.next.lexeme <;> simp only [lexeme] at h
      case punctuation mark => cases mark <;> first | exact h | exact (close lexeme).elim
      case eof => exact (of_fail h).elim
      all_goals exact h
    obtain ⟨head, middle, given, h⟩ := of_bind h
    obtain ⟨_, derived, passed⟩ := first closed given
    obtain ⟨others, last, rest, h⟩ := of_bind h
    obtain ⟨_, ⟨inner, closing, rfl, closeMark, list⟩, further⟩ := ih (passed.closed closed) rest
    cases h
    exact ⟨_, ⟨_, closing, (List.append_assoc ..).symm, closeMark, .some derived list⟩,
      passed.trans further⟩

theorem cases_afterDefault_sound (fuel : Nat) :
    Quiet (cases dialect fuel true) fun taken value => taken = [] ∧ value = [] := by
  intro before after value closed h
  cases fuel with
  | zero => exact (exhausted_sound (fun _ _ => False) (fun _ => []) closed h).elim fun _ no => no.1.elim
  | succ fuel =>
    rw [cases, peek_bind] at h
    have h : (pure [] : Parser _) before = .ok value after := by
      cases lexeme : before.next.lexeme <;> simp only [lexeme] at h
      case keyword word => cases word <;> first | exact h | exact (of_fail h).elim
      all_goals exact h
    cases h
    exact ⟨[], ⟨rfl, rfl⟩, .refl _⟩

theorem cases_succ_sound {fuel : Nat} (inner : SoundBlock (block dialect fuel) dialect)
    (ih : SoundCases (cases dialect fuel false) dialect) :
    SoundCases (cases dialect (fuel + 1) false) dialect := by
  intro before after value closed h
  rw [cases, peek_bind] at h
  cases lexeme : before.next.lexeme <;> simp only [lexeme] at h
  case keyword word =>
    cases word
    case caseWord =>
      obtain ⟨token, middle, taken, h⟩ := of_bind h
      obtain ⟨rfl, passed⟩ := take_passes closed (by simp [lexeme]) taken
      rw [peek_bind] at h
      cases tested : literalOf? middle.next.lexeme <;> simp only [tested] at h
      case none => exact (of_fail h).elim
      case some found =>
        obtain ⟨kind, text⟩ := found
        obtain ⟨literal, second, given, h⟩ := of_bind h
        obtain ⟨_, value, further⟩ := literal_sound (passed.closed closed) tested given
        have passed := passed.cons further
        obtain ⟨body, third, given, h⟩ := of_bind h
        obtain ⟨_, derived, further⟩ := inner (passed.closed closed) given
        have passed := passed.quiet further
        rw [List.cons_append] at passed
        rw [rangeFrom_bind, passed.range] at h
        obtain ⟨others, last, rest, h⟩ := of_bind h
        obtain ⟨_, tail, further⟩ := ih (passed.closed closed) rest
        cases h
        refine ⟨_, .case lexeme value derived tail, ?_⟩
        simpa [casesDefaultOnlySwitches, Case.defaultOnlySwitches] using passed.trans further
    case defaultWord =>
      obtain ⟨token, middle, taken, h⟩ := of_bind h
      obtain ⟨rfl, passed⟩ := take_passes closed (by simp [lexeme]) taken
      obtain ⟨body, second, given, h⟩ := of_bind h
      obtain ⟨_, derived, further⟩ := inner (passed.closed closed) given
      have passed := passed.cons further
      rw [rangeFrom_bind, passed.range] at h
      obtain ⟨others, last, rest, h⟩ := of_bind h
      obtain ⟨_, ⟨rfl, rfl⟩, further⟩ := cases_afterDefault_sound fuel (passed.closed closed) rest
      cases h
      refine ⟨_, .default lexeme derived, ?_⟩
      simpa [casesDefaultOnlySwitches, Case.defaultOnlySwitches] using passed.trans further
    all_goals cases h; exact ⟨[], .none, .refl _⟩
  all_goals cases h; exact ⟨[], .none, .refl _⟩

theorem switchOver_sound {before middle after : Cursor} {taken : List Token} {token : Token}
    {value : Expression} {list : List Case} {location : Location} {statement : Statement}
    (passed : before.Passes taken (casesDefaultOnlySwitches list) middle)
    (h : switchOver token value location list middle = .ok statement after) :
    list ≠ [] ∧ statement = .switch value list (some location) ∧
      before.Passes taken statement.defaultOnlySwitches after := by
  match list with
  | [] => exact (of_fail h).elim
  | [only] =>
    rw [switchOver] at h
    by_cases default : only.isDefault = true
    · simp only [default, if_true] at h
      cases h
      exact ⟨List.cons_ne_nil _ _, rfl,
        by simpa [Statement.defaultOnlySwitches, defaultOnly, default] using passed.warn location⟩
    · simp only [default] at h
      cases h
      exact ⟨List.cons_ne_nil _ _, rfl,
        by simpa [Statement.defaultOnlySwitches, defaultOnly, default] using passed⟩
  | first :: second :: rest =>
    cases h
    exact ⟨List.cons_ne_nil _ _, rfl,
      by simpa [Statement.defaultOnlySwitches, defaultOnly] using passed⟩

section

variable {fuel : Nat} {before after : Cursor} {value : Statement}

theorem functionDefinition_sound (inner : SoundBlock (block dialect fuel) dialect)
    (closed : before.final.lexeme = .eof) (lexeme : before.next.lexeme = .keyword .functionWord)
    (h : statement dialect (fuel + 1) before = .ok value after) :
    ∃ taken, DerivesStatement dialect taken value ∧ before.Passes taken value.defaultOnlySwitches after := by
  rw [statement, peek_bind] at h
  simp only [lexeme] at h
  obtain ⟨token, middle, taken, h⟩ := of_bind h
  obtain ⟨rfl, passed⟩ := take_passes closed (by simp [lexeme]) taken
  obtain ⟨⟨name, ident⟩, second, given, h⟩ := of_bind h
  obtain ⟨named, further⟩ := takeName_passes (passed.closed closed) given
  have passed := passed.cons further
  obtain ⟨parameters, third, given, h⟩ := of_bind h
  obtain ⟨_, ⟨opening, inside, closing, rfl, openMark, parameterNames, closeMark⟩, further⟩ :=
    parameterList_sound fuel (passed.closed closed) given
  have passed := passed.quiet further
  obtain ⟨results, fourth, given, h⟩ := of_bind h
  obtain ⟨_, returned, further⟩ := resultList_sound fuel (passed.closed closed) given
  have passed := passed.quiet further
  obtain ⟨body, last, given, h⟩ := of_bind h
  obtain ⟨_, derived, further⟩ := inner (passed.closed closed) given
  have passed := passed.quiet further
  simp only [List.cons_append, List.append_assoc, List.nil_append] at passed
  rw [rangeFrom_bind, passed.range] at h
  cases h
  exact ⟨_, .functionDefinition lexeme named openMark parameterNames closeMark returned derived, passed⟩

theorem switch_sound (list : SoundCases (cases dialect fuel false) dialect)
    (closed : before.final.lexeme = .eof) (lexeme : before.next.lexeme = .keyword .switchWord)
    (h : statement dialect (fuel + 1) before = .ok value after) :
    ∃ taken, DerivesStatement dialect taken value ∧ before.Passes taken value.defaultOnlySwitches after := by
  rw [statement, peek_bind] at h
  simp only [lexeme] at h
  obtain ⟨token, middle, taken, h⟩ := of_bind h
  obtain ⟨rfl, passed⟩ := take_passes closed (by simp [lexeme]) taken
  obtain ⟨scrutinee, second, given, h⟩ := of_bind h
  obtain ⟨_, tested, further⟩ := expression_sound fuel (passed.closed closed) given
  have passed := passed.cons further
  obtain ⟨branches, third, given, h⟩ := of_bind h
  obtain ⟨_, derived, further⟩ := list (passed.closed closed) given
  have passed := passed.quiet further
  rw [List.cons_append] at passed
  rw [rangeFrom_bind, passed.range] at h
  obtain ⟨some, rfl, passed⟩ := switchOver_sound passed h
  exact ⟨_, .switch lexeme tested derived some, passed⟩

theorem ifThen_sound (inner : SoundBlock (block dialect fuel) dialect)
    (closed : before.final.lexeme = .eof) (lexeme : before.next.lexeme = .keyword .ifWord)
    (h : statement dialect (fuel + 1) before = .ok value after) :
    ∃ taken, DerivesStatement dialect taken value ∧ before.Passes taken value.defaultOnlySwitches after := by
  rw [statement, peek_bind] at h
  simp only [lexeme] at h
  obtain ⟨token, middle, taken, h⟩ := of_bind h
  obtain ⟨rfl, passed⟩ := take_passes closed (by simp [lexeme]) taken
  obtain ⟨condition, second, given, h⟩ := of_bind h
  obtain ⟨_, tested, further⟩ := expression_sound fuel (passed.closed closed) given
  have passed := passed.cons further
  obtain ⟨body, last, given, h⟩ := of_bind h
  obtain ⟨_, derived, further⟩ := inner (passed.closed closed) given
  have passed := passed.quiet further
  rw [List.cons_append] at passed
  rw [rangeFrom_bind, passed.range] at h
  cases h
  exact ⟨_, .ifThen lexeme tested derived, passed⟩

theorem forLoop_sound (inner : SoundBlock (block dialect fuel) dialect)
    (closed : before.final.lexeme = .eof) (lexeme : before.next.lexeme = .keyword .forWord)
    (h : statement dialect (fuel + 1) before = .ok value after) :
    ∃ taken, DerivesStatement dialect taken value ∧ before.Passes taken value.defaultOnlySwitches after := by
  rw [statement, peek_bind] at h
  simp only [lexeme] at h
  obtain ⟨token, middle, taken, h⟩ := of_bind h
  obtain ⟨rfl, passed⟩ := take_passes closed (by simp [lexeme]) taken
  obtain ⟨pre, second, given, h⟩ := of_bind h
  obtain ⟨_, prepared, further⟩ := inner (passed.closed closed) given
  have passed := passed.cons further
  obtain ⟨condition, third, given, h⟩ := of_bind h
  obtain ⟨_, tested, further⟩ := expression_sound fuel (passed.closed closed) given
  have passed := passed.trans further
  obtain ⟨post, fourth, given, h⟩ := of_bind h
  obtain ⟨_, advanced, further⟩ := inner (passed.closed closed) given
  have passed := passed.trans further
  obtain ⟨body, last, given, h⟩ := of_bind h
  obtain ⟨_, derived, further⟩ := inner (passed.closed closed) given
  have passed := passed.trans further
  simp only [List.cons_append, List.append_assoc, List.nil_append] at passed
  rw [rangeFrom_bind, passed.range] at h
  cases h
  exact ⟨_, .forLoop lexeme prepared tested advanced derived, passed⟩

end

/-- The first token decides which statement is read; what is no statement of its own is a call
or an assignment. -/
theorem statement_succ_sound {fuel : Nat} (inner : SoundBlock (block dialect fuel) dialect)
    (list : SoundCases (cases dialect fuel false) dialect) :
    SoundStatement (statement dialect (fuel + 1)) dialect := by
  intro before after value closed read
  have h := read
  rw [statement, peek_bind] at h
  cases lexeme : before.next.lexeme <;> simp only [lexeme] at h
  case punctuation mark =>
    cases mark
    case openBrace =>
      obtain ⟨body, last, given, h⟩ := of_bind h
      obtain ⟨_, derived, passed⟩ := inner closed given
      cases h
      exact ⟨_, .block derived, passed⟩
    all_goals exact simpleStatement_sound fuel closed h
  case keyword word =>
    cases word
    case functionWord => exact functionDefinition_sound inner closed lexeme read
    case letWord => exact variableDeclaration_sound closed lexeme h
    case switchWord => exact switch_sound list closed lexeme read
    case ifWord => exact ifThen_sound inner closed lexeme read
    case forWord => exact forLoop_sound inner closed lexeme read
    case breakWord =>
      obtain ⟨token, middle, taken, h⟩ := of_bind h
      obtain ⟨rfl, passed⟩ := take_passes closed (by simp [lexeme]) taken
      cases h
      exact ⟨_, .breakLoop lexeme, passed⟩
    case continueWord =>
      obtain ⟨token, middle, taken, h⟩ := of_bind h
      obtain ⟨rfl, passed⟩ := take_passes closed (by simp [lexeme]) taken
      cases h
      exact ⟨_, .continueLoop lexeme, passed⟩
    all_goals exact simpleStatement_sound fuel closed h
  all_goals exact simpleStatement_sound fuel closed h

theorem blocks_sound (fuel : Nat) :
    SoundBlock (block dialect fuel) dialect ∧ SoundStatements (statements dialect fuel) dialect ∧
      SoundStatement (statement dialect fuel) dialect ∧
      SoundCases (cases dialect fuel false) dialect := by
  induction fuel with
  | zero =>
    exact ⟨exhausted_sound _ _, exhausted_sound _ _, exhausted_sound _ _, exhausted_sound _ _⟩
  | succ fuel ih =>
    obtain ⟨inner, list, single, branches⟩ := ih
    exact ⟨block_succ_sound list, statements_succ_sound single list,
      statement_succ_sound inner branches, cases_succ_sound inner branches⟩

theorem block_sound (fuel : Nat) : SoundBlock (block dialect fuel) dialect := (blocks_sound fuel).1

/-- A whole text is one block and nothing behind it. -/
theorem program_sound {fuel : Nat} {before after : Cursor} {value : Block}
    (closed : before.final.lexeme = .eof) (h : program dialect fuel before = .ok value after) :
    after.next.lexeme = .eof ∧ ∃ taken, DerivesBlock dialect taken value ∧
      before.Passes taken value.defaultOnlySwitches after := by
  rw [program] at h
  obtain ⟨body, last, given, h⟩ := of_bind h
  rw [peek_bind] at h
  cases lexeme : last.next.lexeme <;> simp only [lexeme] at h
  case eof =>
    cases h
    exact ⟨lexeme, block_sound fuel closed given⟩
  all_goals exact (of_fail h).elim

end ContractAsm.Ir.Parser

import ContractAsm.Proofs.Syntax.Acceptance
import ContractAsm.Proofs.Syntax.Warnings

/-!
# How a reader fails

Where a reader fails, the error stands at one of the tokens that were left, and what was warned
of before are switches in front of that token. The bound on nesting is not what fails: three
calls for each token that is left are enough.
-/

namespace ContractAsm.Ir

open Grammar

variable {dialect : Dialect}

/-! ## Failing at a token -/

/-- Reading from one cursor fails at a token that is left there, and the warnings are of switches
in front of it. -/
structure Cursor.Refused (dialect : Dialect) (before : Cursor) (error : SyntaxError) (after : Cursor) : Prop where
  known : error.fault ≠ .exhausted
  stands : ∃ front token behind found, before.rest ++ [before.final] = front ++ token :: behind
    ∧ error.start = token.start ∧ error.stop = token.stop
    ∧ Warned dialect front found ∧ after.warnings = before.warnings ++ found

section

variable {before middle after : Cursor} {taken : List Token} {found : List Location} {error : SyntaxError}

theorem Cursor.Passes.length (passed : before.Passes taken found after) :
    taken.length + after.rest.length = before.rest.length := by
  rw [passed.rest, List.length_append]

theorem Cursor.Passes.rest_succ {token : Token} (passed : before.Passes [token] found after) :
    after.rest.length + 1 = before.rest.length := by
  rw [← passed.length, Nat.add_comm, List.length_singleton]

theorem Cursor.Passes.next {token : Token} (passed : before.Passes (token :: taken) found after) :
    before.next = token := by
  rw [Cursor.next, passed.rest]
  rfl

/-- What a reader took and warned of stands in front of what a later one fails at. -/
theorem Cursor.Passes.refused (passed : before.Passes taken found middle) (warned : Warned dialect taken found)
    (refused : middle.Refused dialect error after) : before.Refused dialect error after := by
  obtain ⟨known, front, token, behind, further, split, start, stop, others, warnings⟩ := refused
  refine ⟨known, taken ++ front, token, behind, found ++ further, ?_, start, stop, warned.append others, ?_⟩
  · rw [passed.rest, ← passed.final, List.append_assoc, split, List.append_assoc]
  · rw [warnings, passed.warnings, List.append_assoc]

theorem Cursor.refused_next {fault : SyntaxFault} (known : fault ≠ .exhausted)
    (same : after.warnings = before.warnings) :
    before.Refused dialect ⟨fault, before.next.start, before.next.stop⟩ after := by
  obtain ⟨rest, final, last, warnings⟩ := before
  refine ⟨known, ?_⟩
  cases rest with
  | nil => exact ⟨[], final, [], [], rfl, rfl, rfl, .none [], by rw [same, List.append_nil]⟩
  | cons token rest =>
    exact ⟨[], token, rest ++ [final], [], rfl, rfl, rfl, .none [], by rw [same, List.append_nil]⟩

theorem Cursor.Passes.refused_last {fault : SyntaxFault} {token : Token}
    (passed : before.Passes [token] [] middle) (known : fault ≠ .exhausted) (same : after.warnings = middle.warnings) :
    before.Refused dialect ⟨fault, token.start, token.stop⟩ after := by
  rw [← passed.next]
  exact Cursor.refused_next known (by rw [same, passed.warnings, List.append_nil])

end

namespace Parser

section

variable {α β : Type}

/-- Wherever the reader fails from the cursor on, it fails at a token. -/
def RefusesAt (dialect : Dialect) (reader : Parser α) (before : Cursor) : Prop :=
  ∀ ⦃error : SyntaxError⦄ ⦃after : Cursor⦄, reader before = .error error after →
    before.Refused dialect error after

def Refuses (dialect : Dialect) (reader : Parser α) (slack fuel : Nat) : Prop :=
  ∀ ⦃before : Cursor⦄, before.final.lexeme = .eof → 3 * before.rest.length + slack ≤ fuel →
    RefusesAt dialect reader before

variable {before : Cursor}

theorem of_bind_error {reader : Parser α} {next : α → Parser β} {after : Cursor} {error : SyntaxError}
    (failed : (reader >>= next) before = .error error after) :
    reader before = .error error after
      ∨ ∃ value middle, reader before = .ok value middle ∧ next value middle = .error error after := by
  simp only [bind, EStateM.bind] at failed
  split at failed
  · exact .inr ⟨_, _, ‹_›, failed⟩
  · cases failed
    exact .inl ‹_›

theorem refusesAt_pure (value : α) : RefusesAt dialect (pure value) before := by
  intro error after failed
  cases failed

theorem RefusesAt.peek {next : Token → Parser α} (rest : RefusesAt dialect (next before.next) before) :
    RefusesAt dialect (Parser.peek >>= next) before := rest

theorem RefusesAt.range {start : Nat} {next : Location → Parser α}
    (rest : ∀ location, RefusesAt dialect (next location) before) :
    RefusesAt dialect (rangeFrom dialect start >>= next) before := rest _

theorem refusesAt_range (start : Nat) (value : Location → α) :
    RefusesAt dialect (rangeFrom dialect start >>= fun location => pure (value location)) before :=
  .range fun _ => refusesAt_pure _

theorem refusesAt_fail {fault : SyntaxFault} (known : fault ≠ .exhausted) :
    RefusesAt dialect (fail fault before.next : Parser α) before := by
  rintro _ _ ⟨⟩
  exact Cursor.refused_next known rfl

/-- Readers in a row: the second starts where the first stopped. -/
theorem RefusesAt.bind {reader : Parser α} {next : α → Parser β} {derives : List Token → α → Prop}
    {found : α → List Location} (closed : before.final.lexeme = .eof) (sound : Sound reader derives found)
    (first : RefusesAt dialect reader before)
    (warned : ∀ ⦃taken value⦄, derives taken value → Warned dialect taken (found value))
    (rest : ∀ ⦃taken value middle⦄, derives taken value → middle.final.lexeme = .eof →
      taken.length + middle.rest.length = before.rest.length → RefusesAt dialect (next value) middle) :
    RefusesAt dialect (reader >>= next) before := by
  intro error after failed
  obtain failed | ⟨value, middle, done, failed⟩ := of_bind_error failed
  · exact first failed
  · obtain ⟨taken, derived, passed⟩ := sound closed done
    exact passed.refused (warned derived) (rest derived (passed.closed closed) passed.length failed)

theorem RefusesAt.quiet {reader : Parser α} {next : α → Parser β} {derives : List Token → α → Prop}
    (closed : before.final.lexeme = .eof) (sound : Quiet reader derives) (first : RefusesAt dialect reader before)
    (rest : ∀ ⦃taken value middle⦄, derives taken value → middle.final.lexeme = .eof →
      taken.length + middle.rest.length = before.rest.length → RefusesAt dialect (next value) middle) :
    RefusesAt dialect (reader >>= next) before :=
  .bind closed sound first (fun _ _ _ => .none _) rest

theorem RefusesAt.last {reader : Parser α} {value : α → β} (first : RefusesAt dialect reader before) :
    RefusesAt dialect (reader >>= fun part => pure (value part)) before := by
  intro error after failed
  obtain failed | ⟨_, _, _, failed⟩ := of_bind_error failed
  · exact first failed
  · cases failed

theorem of_take_bind_error {next : Token → Parser β} {after : Cursor} {error : SyntaxError}
    (closed : before.final.lexeme = .eof) (inner : before.next.lexeme ≠ .eof)
    (failed : (Parser.take >>= next) before = .error error after) :
    ∃ middle, before.Passes [before.next] [] middle ∧ next before.next middle = .error error after := by
  obtain ⟨_ | ⟨first, others⟩, final, last, warnings⟩ := before
  · exact absurd closed inner
  · exact ⟨⟨others, final, first.stop, warnings⟩, ⟨rfl, rfl, rfl, (List.append_nil _).symm⟩, failed⟩

theorem RefusesAt.take {next : Token → Parser β} (closed : before.final.lexeme = .eof)
    (inner : before.next.lexeme ≠ .eof)
    (rest : ∀ ⦃middle⦄, middle.final.lexeme = .eof → middle.rest.length + 1 = before.rest.length →
      RefusesAt dialect (next before.next) middle) : RefusesAt dialect (Parser.take >>= next) before := by
  intro error after failed
  obtain ⟨middle, passed, failed⟩ := of_take_bind_error closed inner failed
  exact passed.refused (.none _) (rest (passed.closed closed) passed.rest_succ failed)

theorem RefusesAt.ifNext {mark : Punctuation} {yes no : Parser α}
    (next : before.next.lexeme = .punctuation mark → RefusesAt dialect yes before)
    (other : before.next.lexeme ≠ .punctuation mark → RefusesAt dialect no before) :
    RefusesAt dialect (isNextMark mark >>= fun isNext => if isNext = true then yes else no) before := by
  intro error after failed
  rw [isNextMark_bind] at failed
  by_cases here : before.next.lexeme = .punctuation mark
  · simp only [here, decide_true, if_true] at failed
    exact next here failed
  · simp only [here, decide_false, if_neg Bool.false_ne_true] at failed
    exact other here failed

theorem takeMark_refuses (mark : Punctuation) : RefusesAt dialect (takeMark mark) before := by
  intro error after failed
  rw [takeMark, peek_bind] at failed
  split at failed
  · obtain ⟨_ | ⟨first, others⟩, final, last, warnings⟩ := before <;> cases failed
  · exact refusesAt_fail (by simp) failed

theorem takeMark_sound (mark : Punctuation) :
    Quiet (takeMark mark) fun taken token => taken = [token] ∧ token.lexeme = .punctuation mark := by
  intro before after token closed done
  obtain ⟨isMark, passed⟩ := takeMark_passes closed done
  exact ⟨[token], ⟨rfl, isMark⟩, passed⟩

theorem takeName_refuses : RefusesAt dialect takeName before := by
  intro error after failed
  rw [takeName, peek_bind] at failed
  cases lexeme : before.next.lexeme <;> simp only [lexeme] at failed
  case identifier => obtain ⟨_ | ⟨first, others⟩, final, last, warnings⟩ := before <;> cases failed
  all_goals exact refusesAt_fail (by simp) failed

theorem takeName_sound :
    Quiet takeName fun taken named => taken = [named.2] ∧ named.2.lexeme = .identifier named.1 := by
  rintro before after ⟨name, token⟩ closed done
  obtain ⟨ident, passed⟩ := takeName_passes closed done
  exact ⟨[token], ⟨rfl, ident⟩, passed⟩

/-! ## Types and names -/

/-- A type that is missing is reported at its owner, which has just been taken. -/
theorem annotation_refuses {owner : Token} {middle after : Cursor} {missing : SyntaxFault} {error : SyntaxError}
    (known : missing ≠ .exhausted) (closed : before.final.lexeme = .eof) (passed : before.Passes [owner] [] middle)
    (failed : annotation dialect missing owner middle = .error error after) : before.Refused dialect error after := by
  have closedHere := passed.closed closed
  rw [ annotation, isNextMark_bind] at failed
  by_cases colon : middle.next.lexeme = .punctuation .colon
  · simp only [colon, decide_true, if_true] at failed
    refine passed.refused (.none _) ?_
    obtain ⟨last, further, failed⟩ := of_take_bind_error closedHere (by simp [colon]) failed
    split at failed
    · exact further.refused (.none _) (takeName_refuses.last failed)
    · cases failed
      exact further.refused_last (by simp) rfl
  · simp only [colon, decide_false, if_neg Bool.false_ne_true] at failed
    split at failed
    · cases failed
      exact passed.refused_last known rfl
    · cases failed

theorem typedName_refuses (closed : before.final.lexeme = .eof) : RefusesAt dialect (typedName dialect) before := by
  intro error after failed
  rw [typedName] at failed
  obtain failed | ⟨⟨name, token⟩, middle, named, failed⟩ := of_bind_error failed
  · exact takeName_refuses failed
  · obtain ⟨-, passed⟩ := takeName_passes closed named
    obtain failed | ⟨type, last, typed, failed⟩ := of_bind_error failed
    · exact annotation_refuses (by simp) closed passed failed
    · cases failed

theorem length_typedName_pos {tokens : List Token} {declared : TypedName}
    (derived : DerivesTypedName dialect tokens declared) : 0 < tokens.length := by
  cases derived with
  | mk => exact Nat.succ_pos _

theorem furtherTypedNames_refuses (fuel : Nat) : Refuses dialect (furtherTypedNames dialect fuel) 1 fuel := by
  induction fuel with
  | zero => exact fun _ _ enough => by omega
  | succ fuel ih =>
    intro before closed enough
    rw [furtherTypedNames]
    refine .ifNext (fun comma => .take closed (by simp [comma]) fun middle closed taken => ?_) fun _ => refusesAt_pure _
    refine .quiet closed typedName_sound (typedName_refuses closed) fun _ _ _ derived closed left => ?_
    have some := length_typedName_pos derived
    exact (ih closed (by omega)).last

theorem typedNames_refuses (fuel : Nat) : Refuses dialect (typedNames dialect fuel) 0 fuel := by
  intro before closed enough
  rw [typedNames]
  refine .quiet closed typedName_sound (typedName_refuses closed) fun _ _ _ derived closed left => ?_
  have some := length_typedName_pos derived
  exact (furtherTypedNames_refuses fuel closed (by omega)).last

theorem furtherNames_refuses (fuel : Nat) : Refuses dialect (furtherNames fuel) 1 fuel := by
  induction fuel with
  | zero => exact fun _ _ enough => by omega
  | succ fuel ih =>
    intro before closed enough
    rw [furtherNames]
    refine .ifNext (fun comma => .take closed (by simp [comma]) fun middle closed taken => ?_) fun _ => refusesAt_pure _
    refine .quiet closed takeName_sound takeName_refuses fun _ _ _ _ closed left => ?_
    exact (ih closed (by omega)).last

theorem parameterList_refuses (fuel : Nat) : Refuses dialect (parameterList dialect fuel) 0 fuel := by
  intro before closed enough
  rw [parameterList]
  refine .quiet closed (takeMark_sound _) (takeMark_refuses _) fun _ _ middle _ closed left => ?_
  have closes (names : List TypedName) {last : Cursor} :
      RefusesAt dialect (do let _ ← takeMark .closeParen; pure names) last :=
    (takeMark_refuses _).last
  refine .ifNext (fun _ => closes []) fun _ => ?_
  refine .quiet closed (typedNames_sound fuel) (typedNames_refuses fuel closed (by omega)) ?_
  exact fun _ names _ _ _ _ => closes names

theorem resultList_refuses (fuel : Nat) : Refuses dialect (resultList dialect fuel) 0 fuel := by
  intro before closed enough
  rw [resultList]
  refine .ifNext (fun arrow => .take closed (by simp [arrow]) fun middle closed taken => ?_) fun _ => refusesAt_pure _
  exact typedNames_refuses fuel closed (by omega)

/-! ## Expressions -/

theorem literal_refuses {kind : Literal.Kind} {value : Text} (closed : before.final.lexeme = .eof)
    (inner : before.next.lexeme ≠ .eof) : RefusesAt dialect (literal dialect kind value) before := by
  intro error after failed
  rw [literal] at failed
  obtain ⟨middle, passed, failed⟩ := of_take_bind_error closed inner failed
  obtain failed | ⟨type, last, typed, failed⟩ := of_bind_error failed
  · exact annotation_refuses (by simp) closed passed failed
  · cases failed

theorem expression_succ_refuses {fuel : Nat} (ih : Refuses dialect (callArguments dialect fuel) 2 fuel) :
    Refuses dialect (expression dialect (fuel + 1)) 1 (fuel + 1) := by
  intro before closed enough
  have written {kind : Literal.Kind} {text : Text} (inner : before.next.lexeme ≠ .eof) :
      RefusesAt dialect (do return Expression.literal (← literal dialect kind text)) before :=
    (literal_refuses closed inner).last
  rw [expression]
  refine .peek ?_
  cases lexeme : before.next.lexeme
  case identifier name =>
    refine .take closed (by simp [lexeme]) fun middle closed taken => ?_
    refine .ifNext (fun opens => .take closed (by simp [opens]) fun last closed right => ?_) fun _ => refusesAt_pure _
    refine .quiet closed (expressions_sound fuel).2.1 (ih closed (by omega)) ?_
    exact fun _ _ _ _ _ _ => refusesAt_range _ _
  case keyword word =>
    cases word
    case trueWord | falseWord => exact written (by simp [lexeme])
    all_goals exact refusesAt_fail (by simp)
  case number | string => exact written (by simp [lexeme])
  all_goals exact refusesAt_fail (by simp)

theorem callArguments_succ_refuses {fuel : Nat} (first : Refuses dialect (expression dialect fuel) 1 fuel)
    (ih : Refuses dialect (furtherArguments dialect fuel) 1 fuel) :
    Refuses dialect (callArguments dialect (fuel + 1)) 2 (fuel + 1) := by
  intro before closed enough
  rw [callArguments]
  refine .ifNext (fun close => .take closed (by simp [close]) fun _ _ _ => refusesAt_pure _) fun _ => ?_
  refine .quiet closed (expression_sound fuel) (first closed (by omega)) fun _ _ middle derived closed left => ?_
  have some := length_expression_pos derived
  exact (ih closed (by omega)).last

theorem furtherArguments_succ_refuses {fuel : Nat} (first : Refuses dialect (expression dialect fuel) 1 fuel)
    (ih : Refuses dialect (furtherArguments dialect fuel) 1 fuel) :
    Refuses dialect (furtherArguments dialect (fuel + 1)) 1 (fuel + 1) := by
  intro before closed enough
  rw [furtherArguments]
  refine .ifNext (fun comma => .take closed (by simp [comma]) fun middle closed taken => ?_) fun _ => ?_
  · refine .quiet closed (expression_sound fuel) (first closed (by omega)) fun _ _ _ _ closed left => ?_
    exact (ih closed (by omega)).last
  · exact (takeMark_refuses _).last

theorem expressions_refuse (fuel : Nat) :
    Refuses dialect (expression dialect fuel) 1 fuel ∧ Refuses dialect (callArguments dialect fuel) 2 fuel
      ∧ Refuses dialect (furtherArguments dialect fuel) 1 fuel := by
  induction fuel with
  | zero => exact ⟨fun _ _ enough => by omega, fun _ _ enough => by omega, fun _ _ enough => by omega⟩
  | succ fuel ih =>
    obtain ⟨first, arguments, further⟩ := ih
    exact ⟨expression_succ_refuses arguments, callArguments_succ_refuses first further,
      furtherArguments_succ_refuses first further⟩

theorem expression_refuses (fuel : Nat) : Refuses dialect (expression dialect fuel) 1 fuel :=
  (expressions_refuse fuel).1

theorem RefusesAt.expression {fuel : Nat} {next : Expression → Parser β} (closed : before.final.lexeme = .eof)
    (enough : 3 * before.rest.length + 1 ≤ fuel)
    (rest : ∀ ⦃value middle⦄, middle.final.lexeme = .eof → middle.rest.length ≤ before.rest.length →
      RefusesAt dialect (next value) middle) :
    RefusesAt dialect (Parser.expression dialect fuel >>= next) before :=
  .quiet closed (expression_sound fuel) (expression_refuses fuel closed enough) fun _ _ _ _ closed left =>
    rest closed (Nat.le.intro ((Nat.add_comm _ _).trans left))

/-! ## Statements without blocks -/

section

variable {fuel : Nat}

theorem variableDeclaration_refuses (closed : before.final.lexeme = .eof)
    (enough : 3 * before.rest.length ≤ fuel) (inner : before.next.lexeme ≠ .eof) :
    RefusesAt dialect (variableDeclaration dialect fuel) before := by
  rw [variableDeclaration]
  refine .take closed inner fun middle closed taken => ?_
  refine .quiet closed (typedNames_sound fuel) (typedNames_refuses fuel closed (by omega)) ?_
  intro _ _ last _ closed left
  refine .ifNext (fun assign => ?_) fun _ => refusesAt_range _ _
  refine .take closed (by simp [assign]) fun behind closed right => ?_
  exact .expression closed (by omega) fun _ _ _ _ => refusesAt_range _ _

theorem assignment_refuses (name : Text) (closed : before.final.lexeme = .eof)
    (enough : 3 * before.rest.length ≤ fuel) (inner : before.next.lexeme ≠ .eof) :
    RefusesAt dialect (assignment dialect fuel name) before := by
  rw [assignment]
  refine .take closed inner fun middle closed taken => ?_
  refine .quiet closed (furtherNames_sound fuel) (furtherNames_refuses fuel closed (by omega)) ?_
  intro _ _ last _ closed left
  refine .quiet closed (takeMark_sound _) (takeMark_refuses _) fun _ _ behind _ closed right => ?_
  exact .expression closed (by omega) fun _ _ _ _ => refusesAt_range _ _

/-- An expression that is no call is reported where it starts. -/
theorem callStatement_refuses (closed : before.final.lexeme = .eof) (enough : 3 * before.rest.length + 1 ≤ fuel) :
    RefusesAt dialect (callStatement dialect fuel) before := by
  intro error after failed
  rw [callStatement, peek_bind] at failed
  obtain failed | ⟨value, middle, read, failed⟩ := of_bind_error failed
  · exact expression_refuses fuel closed enough failed
  · obtain ⟨taken, -, passed⟩ := expression_sound fuel closed read
    cases value with
    | functionCall => cases failed
    | literal | identifier | unrecognised =>
      cases failed
      exact Cursor.refused_next (by simp) (by rw [passed.warnings, List.append_nil])

theorem simpleStatement_refuses (closed : before.final.lexeme = .eof) (enough : 3 * before.rest.length + 1 ≤ fuel) :
    RefusesAt dialect (simpleStatement dialect fuel) before := by
  have call : RefusesAt dialect (callStatement dialect fuel) before := callStatement_refuses closed enough
  intro error after failed
  rw [simpleStatement, peek_bind, peekSecond_bind] at failed
  cases ident : before.next.lexeme <;>
    cases mark : (before.rest.tail.headD before.final).lexeme <;> simp only [ident, mark] at failed
  case identifier.punctuation name found =>
    have target : RefusesAt dialect (assignment dialect fuel name) before :=
      assignment_refuses name closed (by omega) (by simp [ident])
    cases found
    case assign => exact target failed
    case comma => exact target failed
    all_goals exact call failed
  all_goals exact call failed

/-! ## Blocks -/

theorem statements_warned : ∀ ⦃taken value⦄, Closed .closeBrace (DerivesStatements dialect) taken value →
    Warned dialect taken (statementsDefaultOnlySwitches value) := by
  rintro _ value ⟨inner, closing, rfl, -, derived⟩
  exact derived.warned.widen [closing]

theorem block_warned : ∀ ⦃taken value⦄, DerivesBlock dialect taken value →
    Warned dialect taken value.defaultOnlySwitches := by
  intro taken value derived
  obtain ⟨inner, closing, rfl, warned⟩ := derived.warned
  exact warned.widen [closing]

theorem RefusesAt.block {next : Block → Parser β} (inner : Refuses dialect (block dialect fuel) 1 fuel)
    (closed : before.final.lexeme = .eof) (enough : 3 * before.rest.length + 1 ≤ fuel)
    (rest : ∀ ⦃value middle⦄, middle.final.lexeme = .eof → middle.rest.length ≤ before.rest.length →
      RefusesAt dialect (next value) middle) :
    RefusesAt dialect (Parser.block dialect fuel >>= next) before :=
  .bind closed (block_sound fuel) (inner closed enough) block_warned fun _ _ _ _ closed left =>
    rest closed (Nat.le.intro ((Nat.add_comm _ _).trans left))

theorem block_succ_refuses (ih : Refuses dialect (statements dialect fuel) 3 fuel) :
    Refuses dialect (block dialect (fuel + 1)) 1 (fuel + 1) := by
  intro before closed enough
  rw [block]
  refine .quiet closed (takeMark_sound _) (takeMark_refuses _) fun taken _ middle opened closed left => ?_
  rw [opened.1, List.length_singleton] at left
  refine .bind closed (blocks_sound fuel).2.1 (ih closed (by omega)) statements_warned ?_
  exact fun _ _ _ _ _ _ => refusesAt_range _ _

theorem statements_succ_refuses (first : Refuses dialect (statement dialect fuel) 2 fuel)
    (ih : Refuses dialect (statements dialect fuel) 3 fuel) :
    Refuses dialect (statements dialect (fuel + 1)) 3 (fuel + 1) := by
  intro before closed enough
  have further : RefusesAt dialect (do return (← statement dialect fuel) :: (← statements dialect fuel)) before := by
    refine .bind closed (blocks_sound fuel).2.2.1 (first closed (by omega)) (fun _ _ derived => derived.warned) ?_
    intro _ _ middle derived closed left
    have some := length_statement_pos derived
    exact (ih closed (by omega)).last
  rw [statements]
  refine .peek ?_
  cases lexeme : before.next.lexeme
  case punctuation mark =>
    cases mark
    case closeBrace => exact .take closed (by simp [lexeme]) fun _ _ _ => refusesAt_pure _
    all_goals exact further
  case eof => exact refusesAt_fail (by simp)
  all_goals exact further

theorem cases_afterDefault_refuses (enough : 0 < fuel) : RefusesAt dialect (cases dialect fuel true) before := by
  obtain _ | fuel := fuel
  · omega
  rw [cases]
  refine .peek ?_
  cases before.next.lexeme
  case keyword word =>
    cases word
    case caseWord | defaultWord => exact refusesAt_fail (by simp)
    all_goals exact refusesAt_pure _
  all_goals exact refusesAt_pure _

theorem cases_succ_refuses (inner : Refuses dialect (block dialect fuel) 1 fuel)
    (ih : Refuses dialect (cases dialect fuel false) 2 fuel) :
    Refuses dialect (cases dialect (fuel + 1) false) 2 (fuel + 1) := by
  intro before closed enough
  rw [cases]
  refine .peek ?_
  cases lexeme : before.next.lexeme
  case keyword word =>
    cases word
    case caseWord =>
      refine .take closed (by simp [lexeme]) fun middle closed taken => .peek ?_
      cases tested : literalOf? middle.next.lexeme with
      | none => exact refusesAt_fail (by simp)
      | some found =>
        have real : middle.next.lexeme ≠ .eof := by
          intro eof
          rw [eof] at tested
          contradiction
        intro error after failed
        obtain failed | ⟨value, third, read, failed⟩ := of_bind_error failed
        · exact literal_refuses closed real failed
        obtain ⟨_, -, further⟩ := literal_sound closed tested read
        have closed := further.closed closed
        have left := further.length
        refine further.refused (.none _)
          (RefusesAt.block inner closed (by omega) (fun _ last closed right => ?_) failed)
        exact .range fun _ => (ih closed (by omega)).last
    case defaultWord =>
      refine .take closed (by simp [lexeme]) fun middle closed taken => ?_
      refine .block inner closed (by omega) fun _ last closed left => .range fun _ => ?_
      exact (cases_afterDefault_refuses (by omega)).last
    all_goals exact refusesAt_pure _
  all_goals exact refusesAt_pure _

theorem functionDefinition_refuses (inner : Refuses dialect (block dialect fuel) 1 fuel)
    (closed : before.final.lexeme = .eof) (enough : 3 * before.rest.length ≤ fuel + 1)
    (lexeme : before.next.lexeme = .keyword .functionWord) :
    RefusesAt dialect (statement dialect (fuel + 1)) before := by
  rw [statement]
  refine .peek ?_
  simp only [lexeme]
  refine .take closed (by simp [lexeme]) fun middle closed taken => ?_
  refine .quiet closed takeName_sound takeName_refuses fun _ _ second _ closed left => ?_
  refine .quiet closed (parameterList_sound fuel) (parameterList_refuses fuel closed (by omega)) ?_
  intro _ _ third _ closed left
  refine .quiet closed (resultList_sound fuel) (resultList_refuses fuel closed (by omega)) ?_
  intro _ _ fourth _ closed left
  exact .block inner closed (by omega) fun _ _ _ _ => refusesAt_range _ _

/-- A switch without cases is reported at its first token, after nothing but an expression. -/
theorem switch_refuses (list : Refuses dialect (cases dialect fuel false) 2 fuel)
    (closed : before.final.lexeme = .eof) (enough : 3 * before.rest.length ≤ fuel + 1)
    (lexeme : before.next.lexeme = .keyword .switchWord) :
    RefusesAt dialect (statement dialect (fuel + 1)) before := by
  intro error after failed
  rw [statement, peek_bind] at failed
  simp only [lexeme] at failed
  obtain ⟨middle, word, failed⟩ := of_take_bind_error closed (by simp [lexeme]) failed
  have closed := word.closed closed
  have taken := word.rest_succ
  obtain failed | ⟨value, second, read, failed⟩ := of_bind_error failed
  · exact word.refused (.none _) (expression_refuses fuel closed (by omega) failed)
  obtain ⟨_, -, tested⟩ := expression_sound fuel closed read
  have passed := word.cons tested
  have closed := tested.closed closed
  have left := tested.length
  obtain failed | ⟨branches, third, read, failed⟩ := of_bind_error failed
  · exact passed.refused (.none _) (list closed (by omega) failed)
  obtain ⟨_, -, further⟩ := (blocks_sound fuel).2.2.2 closed read
  rw [rangeFrom_bind] at failed
  cases branches with
  | nil =>
    cases failed
    refine Cursor.refused_next (by simp) ?_
    rw [further.warnings, passed.warnings]
    simp [casesDefaultOnlySwitches]
  | cons first others =>
    cases others with
    | nil =>
      rw [switchOver] at failed
      split at failed <;> cases failed
    | cons => cases failed

theorem ifThen_refuses (inner : Refuses dialect (block dialect fuel) 1 fuel)
    (closed : before.final.lexeme = .eof) (enough : 3 * before.rest.length ≤ fuel + 1)
    (lexeme : before.next.lexeme = .keyword .ifWord) :
    RefusesAt dialect (statement dialect (fuel + 1)) before := by
  rw [statement]
  refine .peek ?_
  simp only [lexeme]
  refine .take closed (by simp [lexeme]) fun middle closed taken => ?_
  refine .expression closed (by omega) fun _ second closed left => ?_
  exact .block inner closed (by omega) fun _ _ _ _ => refusesAt_range _ _

theorem forLoop_refuses (inner : Refuses dialect (block dialect fuel) 1 fuel)
    (closed : before.final.lexeme = .eof) (enough : 3 * before.rest.length ≤ fuel + 1)
    (lexeme : before.next.lexeme = .keyword .forWord) :
    RefusesAt dialect (statement dialect (fuel + 1)) before := by
  rw [statement]
  refine .peek ?_
  simp only [lexeme]
  refine .take closed (by simp [lexeme]) fun middle closed taken => ?_
  refine .block inner closed (by omega) fun _ second closed left => ?_
  refine .expression closed (by omega) fun _ third closed left => ?_
  refine .block inner closed (by omega) fun _ fourth closed left => ?_
  exact .block inner closed (by omega) fun _ _ _ _ => refusesAt_range _ _

theorem statement_succ_refuses (inner : Refuses dialect (block dialect fuel) 1 fuel)
    (list : Refuses dialect (cases dialect fuel false) 2 fuel) :
    Refuses dialect (statement dialect (fuel + 1)) 2 (fuel + 1) := by
  intro before closed enough
  have simple : RefusesAt dialect (simpleStatement dialect fuel) before := simpleStatement_refuses closed (by omega)
  cases lexeme : before.next.lexeme
  case keyword word =>
    cases word
    case functionWord => exact functionDefinition_refuses inner closed (by omega) lexeme
    case switchWord => exact switch_refuses list closed (by omega) lexeme
    case ifWord => exact ifThen_refuses inner closed (by omega) lexeme
    case forWord => exact forLoop_refuses inner closed (by omega) lexeme
    all_goals
      rw [statement]
      refine .peek ?_
      simp only [lexeme]
    case letWord => exact variableDeclaration_refuses closed (by omega) (by simp [lexeme])
    case breakWord | continueWord => exact .take closed (by simp [lexeme]) fun _ _ _ => refusesAt_pure _
    all_goals exact simple
  case punctuation mark =>
    rw [statement]
    refine .peek ?_
    simp only [lexeme]
    cases mark
    case openBrace => exact .block inner closed (by omega) fun _ _ _ _ => refusesAt_pure _
    all_goals exact simple
  all_goals
    rw [statement]
    refine .peek ?_
    simp only [lexeme]
    exact simple

end

theorem blocks_refuse (fuel : Nat) :
    Refuses dialect (block dialect fuel) 1 fuel ∧ Refuses dialect (statements dialect fuel) 3 fuel
      ∧ Refuses dialect (statement dialect fuel) 2 fuel ∧ Refuses dialect (cases dialect fuel false) 2 fuel := by
  induction fuel with
  | zero =>
    exact ⟨fun _ _ enough => by omega, fun _ _ enough => by omega, fun _ _ enough => by omega,
      fun _ _ enough => by omega⟩
  | succ fuel ih =>
    obtain ⟨inner, list, single, branches⟩ := ih
    exact ⟨block_succ_refuses list, statements_succ_refuses single list, statement_succ_refuses inner branches,
      cases_succ_refuses inner branches⟩

theorem program_refuses (fuel : Nat) : Refuses dialect (program dialect fuel) 1 fuel := by
  intro before closed enough
  rw [program]
  refine .block (blocks_refuse fuel).1 closed enough fun _ middle _ _ => .peek ?_
  cases middle.next.lexeme with
  | eof => exact refusesAt_pure _
  | keyword | identifier | number | string | punctuation => exact refusesAt_fail (by simp)

theorem whole_refuses {tokens : List Token} {final : Token} (closed : final.lexeme = .eof) :
    RefusesAt dialect (program dialect (bound tokens)) ⟨tokens, final, 0, []⟩ := by
  have enough : 3 * tokens.length + 1 ≤ bound tokens := by
    rw [bound]
    omega
  exact program_refuses _ closed enough

end

end Parser

end ContractAsm.Ir

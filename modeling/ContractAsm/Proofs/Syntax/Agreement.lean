import ContractAsm.Proofs.Syntax.Indexed
import ContractAsm.Proofs.Syntax.Refusal

/-!
# Agreement of both readings

Reading by an index gives what reading from a cursor gives, call by call: the same values, the
same errors and the same warnings. As no bound is used up by the tokens of a text, whole texts are
read alike, and reading by an index always ends and meets no defect.
-/

namespace ContractAsm.Ir.Indexed

/-! ## States and cursors -/

/-- The state stands where the cursor does, behind the first token. -/
structure Follows (cursor : Cursor) (state : State) : Prop where
  stands : ∃ front last, state.tokens = front ++ last :: (cursor.rest ++ [cursor.final])
    ∧ state.index = front.length + 1 ∧ cursor.last = last.stop
  warnings : state.warnings = cursor.warnings
  closed : cursor.final.lexeme = .eof
  inner : ∀ token ∈ cursor.rest, token.lexeme ≠ .eof

section

variable {α β : Type}

/-- From the cursor on the parser gives what the reader gives from the state on: the same value and
again the same place, or the same error and the same warnings. Nothing is said of a parser that
has used up its bound. -/
def AgreesAt (reader : Reader α) (parser : Parser α) (cursor : Cursor) (state : State) : Prop :=
  match parser cursor with
  | .ok value after => ∃ reached, reader state = some (.ok value, reached) ∧ Follows after reached
  | .error error after => error.fault ≠ .exhausted →
      ∃ reached, reader state = some (.error (.fault error), reached) ∧ reached.warnings = after.warnings

def Agrees (reader : Reader α) (parser : Parser α) : Prop :=
  ∀ ⦃cursor state⦄, Follows cursor state → AgreesAt reader parser cursor state

variable {cursor : Cursor} {state : State}

theorem reader_bind_ok {reader : Reader α} {next : α → Reader β} {value : α} {reached : State}
    (done : reader state = some (.ok value, reached)) : (reader >>= next) state = next value reached := by
  simp only [bind, ExceptT.bind, ExceptT.mk, StateT.bind, done, Option.bind_some, ExceptT.bindCont]

theorem reader_bind_error {reader : Reader α} {next : α → Reader β} {stop : Stop} {reached : State}
    (ended : reader state = some (.error stop, reached)) : (reader >>= next) state = some (.error stop, reached) := by
  simp only [bind, ExceptT.bind, ExceptT.mk, StateT.bind, ended, Option.bind_some, ExceptT.bindCont]
  rfl

theorem AgreesAt.bind_map {γ : Type} {convert : α → γ} {reader : Reader γ} {parser : Parser α} {next : γ → Reader β}
    {further : α → Parser β} (first : AgreesAt reader (convert <$> parser) cursor state)
    (rest : ∀ ⦃value after reached⦄, Follows after reached →
      AgreesAt (next (convert value)) (further value) after reached) :
    AgreesAt (reader >>= next) (parser >>= further) cursor state := by
  unfold AgreesAt at first
  cases read : parser cursor with
  | ok value after =>
    have mapped : (convert <$> parser) cursor = .ok (convert value) after := by
      simp [Functor.map, EStateM.map, read]
    rw [mapped] at first
    obtain ⟨reached, done, follows⟩ := first
    rw [AgreesAt, Parser.bind_of_ok read, reader_bind_ok done]
    exact rest follows
  | error error after =>
    have mapped : (convert <$> parser) cursor = .error error after := by
      simp [Functor.map, EStateM.map, read]
    have failed : (parser >>= further) cursor = .error error after := by
      simp [Bind.bind, EStateM.bind, read]
    rw [mapped] at first
    rw [AgreesAt, failed]
    intro known
    obtain ⟨reached, ended, warnings⟩ := first known
    exact ⟨reached, reader_bind_error ended, warnings⟩

theorem AgreesAt.bind {reader : Reader α} {parser : Parser α} {next : α → Reader β} {further : α → Parser β}
    (first : AgreesAt reader parser cursor state)
    (rest : ∀ ⦃value after reached⦄, Follows after reached → AgreesAt (next value) (further value) after reached) :
    AgreesAt (reader >>= next) (parser >>= further) cursor state :=
  AgreesAt.bind_map (by rwa [id_map']) rest

theorem agreesAt_pure (value : α) (follows : Follows cursor state) :
    AgreesAt (pure value) (pure value) cursor state := ⟨state, rfl, follows⟩

theorem agreesAt_fail (fault : SyntaxFault) (token : Token) (follows : Follows cursor state) :
    AgreesAt (fail fault token : Reader α) (Parser.fail fault token) cursor state :=
  fun _ => ⟨state, rfl, follows.warnings⟩

theorem agrees_exhausted (reader : Reader α) : Agrees reader (do Parser.fail .exhausted (← Parser.peek)) :=
  fun _ _ _ known => absurd rfl known

theorem AgreesAt.ite {condition : Prop} [Decidable condition] {reader other : Reader α} {parser another : Parser α}
    (yes : condition → AgreesAt reader parser cursor state) (no : ¬condition → AgreesAt other another cursor state) :
    AgreesAt (if condition then reader else other) (if condition then parser else another) cursor state := by
  split
  · exact yes ‹_›
  · exact no ‹_›

end

section

variable {β : Type} {cursor : Cursor} {state : State}

theorem Follows.peekAt (follows : Follows cursor state) (offset : Nat) :
    Indexed.peekAt offset state = some (.ok ((cursor.rest.drop offset).headD cursor.final), state) := by
  obtain ⟨tokens, index, warnings⟩ := state
  obtain ⟨front, last, whole, place, -⟩ := follows.stands
  dsimp only at whole place
  subst whole place
  have found : (front ++ last :: (cursor.rest ++ [cursor.final]))[min (front.length + 1 + offset)
      ((front ++ last :: (cursor.rest ++ [cursor.final])).length - 1)]?
        = some ((cursor.rest.drop offset).headD cursor.final) := by
    have clamped : min (front.length + 1 + offset) ((front ++ last :: (cursor.rest ++ [cursor.final])).length - 1)
        = front.length + (min offset cursor.rest.length + 1) := by
      simp only [List.length_append, List.length_cons, List.length_nil]
      omega
    rw [clamped, List.getElem?_append_right (Nat.le_add_right _ _), Nat.add_sub_cancel_left, List.getElem?_cons_succ,
      List.headD_eq_head?_getD, List.head?_drop]
    by_cases inside : offset < cursor.rest.length
    · rw [Nat.min_eq_left (Nat.le_of_lt inside), List.getElem?_append_left inside, List.getElem?_eq_getElem inside]
      rfl
    · have beyond := Nat.le_of_not_lt inside
      rw [Nat.min_eq_right beyond, List.getElem?_concat_length, List.getElem?_eq_none beyond]
      rfl
  unfold Indexed.peekAt
  rw [reader_bind_ok rfl]
  simp only [found]
  rfl

theorem Follows.peek (follows : Follows cursor state) : Indexed.peek state = some (.ok cursor.next, state) :=
  follows.peekAt 0

theorem AgreesAt.of_peek {next : Token → Reader β} {parser : Parser β} (follows : Follows cursor state)
    (rest : AgreesAt (next cursor.next) parser cursor state) :
    AgreesAt (Indexed.peek >>= next) parser cursor state := by
  unfold AgreesAt
  rw [reader_bind_ok follows.peek]
  exact rest

theorem AgreesAt.of_parser_peek {reader : Reader β} {further : Token → Parser β}
    (rest : AgreesAt reader (further cursor.next) cursor state) :
    AgreesAt reader (Parser.peek >>= further) cursor state := rest

theorem AgreesAt.peek {next : Token → Reader β} {further : Token → Parser β} (follows : Follows cursor state)
    (rest : AgreesAt (next cursor.next) (further cursor.next) cursor state) :
    AgreesAt (Indexed.peek >>= next) (Parser.peek >>= further) cursor state := .of_peek follows rest

theorem AgreesAt.peekSecond {next : Token → Reader β} {further : Token → Parser β} (follows : Follows cursor state)
    (rest : AgreesAt (next (cursor.rest.tail.headD cursor.final)) (further (cursor.rest.tail.headD cursor.final))
      cursor state) :
    AgreesAt (Indexed.peekAt 1 >>= next) (Parser.peekSecond >>= further) cursor state := by
  have second := follows.peekAt 1
  rw [List.drop_one] at second
  unfold AgreesAt
  rw [Parser.peekSecond_bind, reader_bind_ok second]
  exact rest

theorem Follows.take (follows : Follows cursor state) (inner : cursor.next.lexeme ≠ .eof) :
    ∃ after reached, Parser.take cursor = .ok cursor.next after
      ∧ advance state = some (.ok cursor.next, reached) ∧ Follows after reached := by
  have taken : advance state = some (.ok cursor.next, { state with index := state.index + 1 }) := by
    unfold advance
    rw [reader_bind_ok follows.peek, if_neg inner]
    rfl
  obtain ⟨⟨front, last, whole, place, stop⟩, warnings, closed, real⟩ := follows
  obtain ⟨_ | ⟨token, others⟩, final, before, found⟩ := cursor
  · exact absurd closed inner
  refine ⟨_, _, rfl, taken, ⟨front ++ [last], token, ?_, ?_, rfl⟩, warnings, closed, fun other member => ?_⟩
  · rw [whole]
    simp
  · simp [place]
  · exact real other (List.mem_cons_of_mem _ member)

theorem AgreesAt.take {next : Token → Reader β} {further : Token → Parser β} (follows : Follows cursor state)
    (inner : cursor.next.lexeme ≠ .eof)
    (rest : ∀ ⦃after reached⦄, Follows after reached →
      AgreesAt (next cursor.next) (further cursor.next) after reached) :
    AgreesAt (advance >>= next) (Parser.take >>= further) cursor state := by
  obtain ⟨after, reached, taken, advanced, follows⟩ := follows.take inner
  unfold AgreesAt
  rw [Parser.bind_of_ok taken, reader_bind_ok advanced]
  exact rest follows

theorem takeMark_agrees (mark : Punctuation) : Agrees (takeMark mark) (Parser.takeMark mark) := by
  intro cursor state follows
  refine AgreesAt.peek follows (.ite (fun isMark => ?_) fun _ => agreesAt_fail _ _ follows)
  obtain ⟨after, reached, taken, advanced, follows⟩ := follows.take (by simp [isMark])
  unfold AgreesAt
  rw [taken]
  exact ⟨reached, advanced, follows⟩

theorem takeMark_agrees_take {mark : Punctuation} (isMark : cursor.next.lexeme = .punctuation mark)
    (follows : Follows cursor state) : AgreesAt (takeMark mark) Parser.take cursor state := by
  have agrees := takeMark_agrees mark follows
  have same : Parser.takeMark mark cursor = Parser.take cursor := by
    rw [Parser.takeMark, Parser.peek_bind, if_pos isMark]
  rwa [AgreesAt, same] at agrees

theorem takeName_agrees : Agrees takeName Parser.takeName := by
  intro cursor state follows
  refine AgreesAt.peek follows ?_
  cases lexeme : cursor.next.lexeme with
  | identifier name =>
    simp only
    exact AgreesAt.take follows (by simp [lexeme]) fun _ _ follows => agreesAt_pure _ follows
  | keyword | number | string | punctuation | eof =>
    simp only
    exact agreesAt_fail _ _ follows

theorem Follows.isNextMark (mark : Punctuation) (follows : Follows cursor state) :
    Indexed.isNextMark mark state = some (.ok (decide (cursor.next.lexeme = .punctuation mark)), state) := by
  unfold Indexed.isNextMark
  rw [reader_bind_ok follows.peek]
  rfl

theorem AgreesAt.of_next {mark : Punctuation} {next : Bool → Reader β} {parser : Parser β}
    (follows : Follows cursor state)
    (rest : AgreesAt (next (decide (cursor.next.lexeme = .punctuation mark))) parser cursor state) :
    AgreesAt (isNextMark mark >>= next) parser cursor state := by
  unfold AgreesAt
  rw [reader_bind_ok (follows.isNextMark mark)]
  exact rest

theorem takeWord_agrees : Agrees takeWord (do return (← Parser.takeName).1) := by
  intro cursor state follows
  exact (takeName_agrees follows).bind fun _ _ _ follows => agreesAt_pure _ follows

theorem AgreesAt.ifNext {mark : Punctuation} {reader other : Reader β} {parser another : Parser β}
    (follows : Follows cursor state)
    (yes : cursor.next.lexeme = .punctuation mark → AgreesAt reader parser cursor state)
    (no : cursor.next.lexeme ≠ .punctuation mark → AgreesAt other another cursor state) :
    AgreesAt (isNextMark mark >>= fun isNext => if isNext = true then reader else other)
      (Parser.isNextMark mark >>= fun isNext => if isNext = true then parser else another) cursor state := by
  refine .of_next follows ?_
  unfold AgreesAt
  rw [Parser.isNextMark_bind]
  exact AgreesAt.ite (fun isMark => yes (of_decide_eq_true isMark)) fun noMark => no (by simpa using noMark)

theorem AgreesAt.range {next : Location → Reader β} {further : Location → Parser β} {options : Options} {start : Nat}
    (follows : Follows cursor state)
    (rest : AgreesAt (next (options.location start cursor.last)) (further (options.location start cursor.last))
      cursor state) :
    AgreesAt (options.rangeFrom start >>= next) (Parser.rangeFrom options start >>= further) cursor state := by
  obtain ⟨front, last, whole, place, stop⟩ := follows.stands
  have previous : state.previous? = some last := by
    rw [State.previous?, if_neg (by omega), whole, place]
    simp
  have ranged : options.rangeFrom start state = some (.ok (options.location start cursor.last), state) := by
    unfold Options.rangeFrom
    rw [reader_bind_ok rfl, previous, stop]
    rfl
  unfold AgreesAt
  rw [Parser.rangeFrom_bind, reader_bind_ok ranged]
  exact rest

theorem AgreesAt.warn {next : Unit → Reader β} {further : Unit → Parser β} (location : Location)
    (follows : Follows cursor state)
    (rest : ∀ ⦃after reached⦄, Follows after reached → AgreesAt (next ()) (further ()) after reached) :
    AgreesAt (warn location >>= next) (Parser.warn location >>= further) cursor state := by
  unfold AgreesAt
  rw [Parser.warn_bind, reader_bind_ok rfl]
  exact rest ⟨follows.stands, congrArg (· ++ [location]) follows.warnings, follows.closed, follows.inner⟩

end

variable {options : Options}

/-! ## Types and names -/

theorem annotatedType_agrees (missing : SyntaxFault) (owner : Token) :
    Agrees (options.annotatedType missing owner) ( Parser.annotation options missing owner) := by
  intro cursor state follows
  refine .ifNext follows (fun colon => ?_) fun _ => ?_
  · refine .take follows (by simp [colon]) fun _ _ follows => .ite (fun _ => ?_) fun _ => agreesAt_fail _ _ follows
    exact (takeName_agrees follows).bind fun _ _ _ follows => agreesAt_pure _ follows
  · exact .ite (fun _ => agreesAt_fail _ _ follows) fun _ => agreesAt_pure _ follows

theorem typedName_agrees : Agrees options.typedName (Parser.typedName options) := by
  intro cursor state follows
  refine (takeName_agrees follows).bind fun _ _ _ follows => ?_
  exact (annotatedType_agrees _ _ follows).bind fun _ _ _ follows => agreesAt_pure _ follows

theorem behindCommas_agrees {α : Type} {element : Reader α} {single : Parser α} {further : Parser (List α)}
    (agrees : Agrees element single) (ih : Agrees element.behindCommas further) :
    Agrees element.behindCommas (do
      if ← Parser.isNextMark .comma then
        let _ ← Parser.take
        let next ← single
        return next :: (← further)
      else return []) := by
  intro cursor state follows
  rw [Reader.behindCommas]
  refine .ifNext follows (fun comma => ?_) fun _ => agreesAt_pure _ follows
  refine .take follows (by simp [comma]) fun _ _ follows => ?_
  refine (agrees follows).bind fun _ _ _ follows => ?_
  exact (ih follows).bind fun _ _ _ follows => agreesAt_pure _ follows

theorem furtherTypedNames_agrees (fuel : Nat) :
    Agrees options.typedName.behindCommas (Parser.furtherTypedNames options fuel) := by
  induction fuel with
  | zero => exact agrees_exhausted _
  | succ fuel ih => exact behindCommas_agrees typedName_agrees ih

theorem typedNames_agrees (fuel : Nat) : Agrees options.typedNames (Parser.typedNames options fuel) := by
  intro cursor state follows
  refine (typedName_agrees follows).bind fun _ _ _ follows => ?_
  exact (furtherTypedNames_agrees fuel follows).bind fun _ _ _ follows => agreesAt_pure _ follows

theorem furtherNames_agrees (fuel : Nat) : Agrees takeWord.behindCommas (Parser.furtherNames fuel) := by
  induction fuel with
  | zero => exact agrees_exhausted _
  | succ fuel ih =>
    have further := behindCommas_agrees takeWord_agrees ih
    simp only [bind_assoc, pure_bind] at further
    exact further

theorem parameterList_agrees (fuel : Nat) : Agrees options.parameterList (Parser.parameterList options fuel) := by
  intro cursor state follows
  refine (takeMark_agrees _ follows).bind fun _ _ _ follows => ?_
  have closes {names : List TypedName} : Agrees (do let _ ← takeMark .closeParen; pure names)
      (do let _ ← Parser.takeMark .closeParen; pure names) :=
    fun _ _ follows => (takeMark_agrees _ follows).bind fun _ _ _ follows => agreesAt_pure _ follows
  refine .ifNext follows (fun _ => ?_) fun _ => ?_
  · exact (agreesAt_pure [] follows).bind fun _ _ _ follows => closes follows
  · exact (typedNames_agrees fuel follows).bind fun _ _ _ follows => closes follows

theorem resultList_agrees (fuel : Nat) : Agrees options.resultList (Parser.resultList options fuel) := by
  intro cursor state follows
  refine .ifNext follows (fun arrow => ?_) fun _ => agreesAt_pure _ follows
  exact .take follows (by simp [arrow]) fun _ _ follows => typedNames_agrees fuel follows

/-! ## Expressions -/

theorem literal_agrees {cursor : Cursor} {state : State} {kind : Literal.Kind} {value : Text}
    (lexeme : Parser.literalOf? cursor.next.lexeme = some (kind, value)) (follows : Follows cursor state) :
    AgreesAt options.literal (Parser.literal options kind value) cursor state := by
  have real : cursor.next.lexeme ≠ .eof := by
    intro eof
    rw [eof] at lexeme
    contradiction
  refine .take follows real fun _ _ follows => ?_
  simp only [lexeme]
  refine (annotatedType_agrees _ _ follows).bind fun _ _ _ follows => ?_
  exact .range follows (agreesAt_pure _ follows)

theorem expression_succ_agrees {fuel : Nat}
    (ih : Agrees options.callArguments (Parser.callArguments options fuel)) :
    Agrees options.expression (Parser.expression options (fuel + 1)) := by
  intro cursor state follows
  rw [Options.expression, Parser.expression]
  refine .peek follows ?_
  cases tested : Parser.literalOf? cursor.next.lexeme with
  | some found =>
    have starts : startsLiteral cursor.next = true := by rw [startsLiteral, tested]; rfl
    rw [if_pos starts]
    have whole : AgreesAt (do return Expression.literal (← options.literal))
        (do return Expression.literal (← Parser.literal options found.1 found.2)) cursor state :=
      (literal_agrees tested follows).bind fun _ _ _ follows => agreesAt_pure _ follows
    cases lexeme : cursor.next.lexeme <;> rw [lexeme] at tested
    case identifier => contradiction
    all_goals
      simp only [tested]
      exact whole
  | none =>
    have starts : ¬startsLiteral cursor.next = true := by rw [startsLiteral, tested]; exact Bool.false_ne_true
    rw [if_neg starts]
    cases lexeme : cursor.next.lexeme <;> rw [lexeme] at tested
    case identifier name =>
      simp only
      refine .take follows (by simp [lexeme]) fun _ _ follows => ?_
      refine .ifNext follows (fun opens => ?_) fun _ => agreesAt_pure _ follows
      refine .take follows (by simp [opens]) fun _ _ follows => ?_
      refine (ih follows).bind fun _ _ _ follows => ?_
      exact .range follows (agreesAt_pure _ follows)
    all_goals
      simp only [tested]
      exact agreesAt_fail _ _ follows

theorem callArguments_succ_agrees {fuel : Nat} (first : Agrees options.expression (Parser.expression options fuel))
    (ih : Agrees options.furtherArguments (Parser.furtherArguments options fuel)) :
    Agrees options.callArguments (Parser.callArguments options (fuel + 1)) := by
  intro cursor state follows
  rw [Options.callArguments, Parser.callArguments]
  refine .ifNext follows (fun close => ?_) fun _ => ?_
  · exact (takeMark_agrees_take close follows).bind fun _ _ _ follows => agreesAt_pure _ follows
  · refine (first follows).bind fun _ _ _ follows => ?_
    exact (ih follows).bind fun _ _ _ follows => agreesAt_pure _ follows

theorem furtherArguments_succ_agrees {fuel : Nat}
    (first : Agrees options.expression (Parser.expression options fuel))
    (ih : Agrees options.furtherArguments (Parser.furtherArguments options fuel)) :
    Agrees options.furtherArguments (Parser.furtherArguments options (fuel + 1)) := by
  intro cursor state follows
  rw [Options.furtherArguments, Parser.furtherArguments]
  refine .ifNext follows (fun comma => ?_) fun _ => ?_
  · refine .take follows (by simp [comma]) fun _ _ follows => ?_
    refine (first follows).bind fun _ _ _ follows => ?_
    exact (ih follows).bind fun _ _ _ follows => agreesAt_pure _ follows
  · exact (takeMark_agrees _ follows).bind fun _ _ _ follows => agreesAt_pure _ follows

theorem expressions_agree (fuel : Nat) :
    Agrees options.expression (Parser.expression options fuel)
      ∧ Agrees options.callArguments (Parser.callArguments options fuel)
      ∧ Agrees options.furtherArguments (Parser.furtherArguments options fuel) := by
  induction fuel with
  | zero => exact ⟨agrees_exhausted _, agrees_exhausted _, agrees_exhausted _⟩
  | succ fuel ih =>
    obtain ⟨first, arguments, further⟩ := ih
    exact ⟨expression_succ_agrees arguments, callArguments_succ_agrees first further,
      furtherArguments_succ_agrees first further⟩

theorem expression_agrees (fuel : Nat) : Agrees options.expression (Parser.expression options fuel) :=
  (expressions_agree fuel).1

/-! ## Statements without blocks -/

theorem variableDeclaration_agrees {fuel : Nat} {cursor : Cursor} {state : State}
    (inner : cursor.next.lexeme ≠ .eof) (follows : Follows cursor state) :
    AgreesAt options.variableDeclaration (Parser.variableDeclaration options fuel) cursor state := by
  refine .take follows inner fun _ _ follows => ?_
  refine (typedNames_agrees fuel follows).bind fun _ _ _ follows => ?_
  refine .ifNext follows (fun assign => ?_) fun _ => .range follows (agreesAt_pure _ follows)
  refine .take follows (by simp [assign]) fun _ _ follows => ?_
  refine (expression_agrees fuel follows).bind fun _ _ _ follows => ?_
  exact .range follows (agreesAt_pure _ follows)

theorem assignment_agrees {fuel : Nat} {cursor : Cursor} {state : State} (name : Text)
    (inner : cursor.next.lexeme ≠ .eof) (follows : Follows cursor state) :
    AgreesAt (options.assignment name) (Parser.assignment options fuel name) cursor state := by
  refine .take follows inner fun _ _ follows => ?_
  refine (furtherNames_agrees fuel follows).bind fun _ _ _ follows => ?_
  refine (takeMark_agrees _ follows).bind fun _ _ _ follows => ?_
  refine (expression_agrees fuel follows).bind fun _ _ _ follows => ?_
  exact .range follows (agreesAt_pure _ follows)

theorem callStatement_agrees (fuel : Nat) : Agrees options.callStatement (Parser.callStatement options fuel) := by
  intro cursor state follows
  refine .peek follows ((expression_agrees fuel follows).bind fun value _ _ follows => ?_)
  cases value with
  | functionCall => exact agreesAt_pure _ follows
  | literal | identifier | unrecognised => exact agreesAt_fail _ _ follows

theorem simpleStatement_agrees (fuel : Nat) :
    Agrees options.simpleStatement (Parser.simpleStatement options fuel) := by
  intro cursor state follows
  refine .peek follows (.peekSecond follows ?_)
  have call : AgreesAt options.callStatement (Parser.callStatement options fuel) cursor state :=
    callStatement_agrees fuel follows
  cases ident : cursor.next.lexeme <;> cases (cursor.rest.tail.headD cursor.final).lexeme
  case identifier.punctuation name found =>
    have target : AgreesAt (options.assignment name) (Parser.assignment options fuel name) cursor state :=
      assignment_agrees name (by simp [ident]) follows
    cases found
    case assign => exact target
    case comma => exact target
    all_goals exact call
  all_goals exact call

/-- The flag of the reader says what the parser sees from the only case. -/
theorem switchOver_agrees {cursor : Cursor} {state : State} (word : Token) (value : Expression) (list : List Case)
    (follows : Follows cursor state) :
    AgreesAt (options.switchOver word value list (list.any Case.isDefault))
      (Parser.rangeFrom options word.start >>= fun location => Parser.switchOver word value location list)
      cursor state := by
  match list with
  | [] => exact agreesAt_fail _ _ follows
  | [only] =>
    refine .range follows ?_
    rw [Parser.switchOver]
    cases default : only.isDefault with
    | true =>
      simp only [List.length_singleton, List.any_cons, default, List.any_nil, Bool.or_false, and_self, if_true]
      exact .warn _ follows fun _ _ follows => agreesAt_pure _ follows
    | false =>
      simp only [List.length_singleton, List.any_cons, default, List.any_nil, Bool.or_false, Bool.false_eq_true,
        and_false, if_false]
      exact agreesAt_pure _ follows
  | first :: second :: rest =>
    refine .range follows ?_
    simp only [List.length_cons, Nat.add_eq_right, Nat.add_eq_zero_iff, Nat.one_ne_zero, and_false, false_and,
      if_false]
    exact agreesAt_pure _ follows

/-! ## Blocks -/

def flagged (hasDefault : Bool) (list : List Case) : List Case × Bool := (list, hasDefault || list.any Case.isDefault)

theorem block_succ_agrees {fuel : Nat} (ih : Agrees options.statements (Parser.statements options fuel))
    {cursor : Cursor} {state : State}
    (opens : AgreesAt (takeMark .openBrace) (Parser.takeMark .openBrace) cursor state) :
    AgreesAt options.block (Parser.block options (fuel + 1)) cursor state := by
  rw [Options.block, Parser.block]
  refine opens.bind fun _ _ _ follows => ?_
  refine (ih follows).bind fun _ _ _ follows => ?_
  exact .range follows (agreesAt_pure _ follows)

theorem statements_succ_agrees {fuel : Nat} (first : Agrees options.statement (Parser.statement options fuel))
    (ih : Agrees options.statements (Parser.statements options fuel)) :
    Agrees options.statements (Parser.statements options (fuel + 1)) := by
  intro cursor state follows
  have further : AgreesAt (do return (← options.statement) :: (← options.statements))
      (do return (← Parser.statement options fuel) :: (← Parser.statements options fuel)) cursor state := by
    refine (first follows).bind fun _ _ _ follows => ?_
    exact (ih follows).bind fun _ _ _ follows => agreesAt_pure _ follows
  rw [Options.statements, Parser.statements]
  refine .of_next follows (.of_parser_peek ?_)
  cases lexeme : cursor.next.lexeme
  case eof =>
    refine .of_peek follows ?_
    simp only [lexeme]
    exact agreesAt_fail _ _ follows
  case punctuation mark =>
    cases mark
    case closeBrace => exact .take follows (by simp [lexeme]) fun _ _ follows => agreesAt_pure _ follows
    all_goals
      refine .of_peek follows ?_
      simp only [lexeme]
      exact further
  all_goals
    refine .of_peek follows ?_
    simp only [lexeme]
    exact further

section

variable {fuel : Nat} {cursor : Cursor} {state : State}

theorem functionDefinition_agrees (inner : Agrees options.block (Parser.block options fuel))
    (lexeme : cursor.next.lexeme = .keyword .functionWord) (follows : Follows cursor state) :
    AgreesAt options.functionDefinition (Parser.statement options (fuel + 1)) cursor state := by
  rw [Options.functionDefinition, Parser.statement]
  refine .of_parser_peek ?_
  simp only [lexeme]
  refine .take follows (by simp [lexeme]) fun _ _ follows => ?_
  refine (takeName_agrees follows).bind fun _ _ _ follows => ?_
  refine (parameterList_agrees fuel follows).bind fun _ _ _ follows => ?_
  refine (resultList_agrees fuel follows).bind fun _ _ _ follows => ?_
  refine (inner follows).bind fun _ _ _ follows => ?_
  exact .range follows (agreesAt_pure _ follows)

theorem conditional_agrees (inner : Agrees options.block (Parser.block options fuel))
    (lexeme : cursor.next.lexeme = .keyword .ifWord) (follows : Follows cursor state) :
    AgreesAt options.conditional (Parser.statement options (fuel + 1)) cursor state := by
  rw [Options.conditional, Parser.statement]
  refine .of_parser_peek ?_
  simp only [lexeme]
  refine .take follows (by simp [lexeme]) fun _ _ follows => ?_
  refine (expression_agrees fuel follows).bind fun _ _ _ follows => ?_
  refine (inner follows).bind fun _ _ _ follows => ?_
  exact .range follows (agreesAt_pure _ follows)

theorem loop_agrees (inner : Agrees options.block (Parser.block options fuel))
    (lexeme : cursor.next.lexeme = .keyword .forWord) (follows : Follows cursor state) :
    AgreesAt options.loop (Parser.statement options (fuel + 1)) cursor state := by
  rw [Options.loop, Parser.statement]
  refine .of_parser_peek ?_
  simp only [lexeme]
  refine .take follows (by simp [lexeme]) fun _ _ follows => ?_
  refine (inner follows).bind fun _ _ _ follows => ?_
  refine (expression_agrees fuel follows).bind fun _ _ _ follows => ?_
  refine (inner follows).bind fun _ _ _ follows => ?_
  refine (inner follows).bind fun _ _ _ follows => ?_
  exact .range follows (agreesAt_pure _ follows)

theorem switchStatement_agrees
    (list : Agrees (options.cases false) (flagged false <$> Parser.cases options fuel false))
    (lexeme : cursor.next.lexeme = .keyword .switchWord) (follows : Follows cursor state) :
    AgreesAt options.switchStatement (Parser.statement options (fuel + 1)) cursor state := by
  rw [Options.switchStatement, Parser.statement]
  refine .of_parser_peek ?_
  simp only [lexeme]
  refine .take follows (by simp [lexeme]) fun _ _ follows => ?_
  refine (expression_agrees fuel follows).bind fun _ _ _ follows => ?_
  exact (list follows).bind_map fun _ _ _ follows => switchOver_agrees _ _ _ follows

end

theorem valuedCase_agrees {fuel start : Nat} {cursor : Cursor} {state : State}
    (inner : Agrees options.block (Parser.block options fuel))
    (others : Agrees (options.cases false) (flagged false <$> Parser.cases options fuel false))
    (follows : Follows cursor state) :
    AgreesAt
      (do
        let next ← peek
        if startsLiteral next then
          let value ← options.literal
          let body ← options.block
          let location ← options.rangeFrom start
          let (others, found) ← options.cases false
          return (.mk (some (.literal value)) body (some location) :: others, found)
        else fail (.expectedCaseLiteral next.lexeme) next)
      (flagged false <$> do
        let value ← Parser.peek
        match Parser.literalOf? value.lexeme with
        | none => Parser.fail (.expectedCaseLiteral value.lexeme) value
        | some (kind, text) =>
            let value ← Parser.literal options kind text
            let body ← Parser.block options fuel
            let location ← Parser.rangeFrom options start
            return .mk (some (.literal value)) body (some location) :: (← Parser.cases options fuel false))
      cursor state := by
  rw [map_bind]
  refine .peek follows ?_
  cases tested : Parser.literalOf? cursor.next.lexeme with
  | none =>
    rw [startsLiteral, tested]
    exact agreesAt_fail _ _ follows
  | some found =>
    rw [startsLiteral, tested]
    simp only [Option.isSome_some, if_true, map_bind]
    refine (literal_agrees tested follows).bind fun _ _ _ follows => ?_
    refine (inner follows).bind fun _ _ _ follows => .range follows ?_
    exact (others follows).bind_map fun _ _ _ follows => agreesAt_pure _ follows

theorem cases_succ_agrees {fuel : Nat} (inner : Agrees options.block (Parser.block options fuel))
    (ih : ∀ hasDefault,
      Agrees (options.cases hasDefault) (flagged hasDefault <$> Parser.cases options fuel hasDefault))
    (hasDefault : Bool) :
    Agrees (options.cases hasDefault) (flagged hasDefault <$> Parser.cases options (fuel + 1) hasDefault) := by
  intro cursor state follows
  have noFurther : AgreesAt (pure ([], hasDefault)) (flagged hasDefault <$> pure []) cursor state := by
    rw [map_pure, flagged, List.any_nil, Bool.or_false]
    exact agreesAt_pure _ follows
  rw [Options.cases, Parser.cases, map_bind]
  refine .peek follows ?_
  cases lexeme : cursor.next.lexeme
  case keyword word =>
    cases word
    case caseWord =>
      cases hasDefault
      case true => exact agreesAt_fail _ _ follows
      case false =>
        simp only [Bool.false_eq_true, if_false]
        rw [map_bind]
        exact .take follows (by simp [lexeme]) fun _ _ follows => valuedCase_agrees inner (ih false) follows
    case defaultWord =>
      cases hasDefault
      case true => exact agreesAt_fail _ _ follows
      case false =>
        simp only [Bool.false_eq_true, if_false, map_bind]
        refine .take follows (by simp [lexeme]) fun _ _ follows => ?_
        refine (inner follows).bind fun _ _ _ follows => .range follows ?_
        exact (ih true follows).bind_map fun _ _ _ follows => agreesAt_pure _ follows
    all_goals exact noFurther
  all_goals exact noFurther

theorem statement_succ_agrees {fuel : Nat} (inner : Agrees options.block (Parser.block options fuel))
    (list : Agrees (options.cases false) (flagged false <$> Parser.cases options fuel false)) :
    Agrees options.statement (Parser.statement options (fuel + 1)) := by
  intro cursor state follows
  have simple : AgreesAt options.simpleStatement (Parser.simpleStatement options fuel) cursor state :=
    simpleStatement_agrees fuel follows
  rw [Options.statement]
  refine .of_peek follows ?_
  cases lexeme : cursor.next.lexeme
  case keyword word =>
    cases word
    case functionWord => exact functionDefinition_agrees inner lexeme follows
    case switchWord => exact switchStatement_agrees list lexeme follows
    case ifWord => exact conditional_agrees inner lexeme follows
    case forWord => exact loop_agrees inner lexeme follows
    all_goals
      rw [Parser.statement]
      refine .of_parser_peek ?_
      simp only [lexeme]
    case letWord => exact variableDeclaration_agrees (by simp [lexeme]) follows
    case breakWord | continueWord =>
      exact .take follows (by simp [lexeme]) fun _ _ follows => agreesAt_pure _ follows
    all_goals exact simple
  case punctuation mark =>
    rw [Parser.statement]
    refine .of_parser_peek ?_
    simp only [lexeme]
    cases mark
    case openBrace => exact (inner follows).bind fun _ _ _ follows => agreesAt_pure _ follows
    all_goals exact simple
  all_goals
    rw [Parser.statement]
    refine .of_parser_peek ?_
    simp only [lexeme]
    exact simple

theorem blocks_agree (fuel : Nat) :
    Agrees options.block (Parser.block options fuel)
      ∧ Agrees options.statements (Parser.statements options fuel)
      ∧ Agrees options.statement (Parser.statement options fuel)
      ∧ ∀ hasDefault,
        Agrees (options.cases hasDefault) (flagged hasDefault <$> Parser.cases options fuel hasDefault) := by
  induction fuel with
  | zero =>
    refine ⟨agrees_exhausted _, agrees_exhausted _, agrees_exhausted _, fun hasDefault _ _ _ known => ?_⟩
    exact absurd rfl known
  | succ fuel ih =>
    obtain ⟨inner, several, single, list⟩ := ih
    exact ⟨fun _ _ follows => block_succ_agrees several (takeMark_agrees _ follows),
      statements_succ_agrees single several, statement_succ_agrees inner (list false), cases_succ_agrees inner list⟩

/-! ## Whole texts -/

section

variable {tokens : List Token} {final : Token}

/-- Where reading starts there is no token behind the index, but there is one to look at. -/
theorem takeMark_agrees_start (mark : Punctuation) (closed : final.lexeme = .eof)
    (inner : ∀ token ∈ tokens, token.lexeme ≠ .eof) :
    AgreesAt (takeMark mark) (Parser.takeMark mark) ⟨tokens, final, 0, []⟩ ⟨tokens ++ [final], 0, []⟩ := by
  have looked : peek ⟨tokens ++ [final], 0, []⟩ = some (.ok (tokens.headD final), ⟨tokens ++ [final], 0, []⟩) := by
    cases tokens <;> rfl
  unfold AgreesAt takeMark Parser.takeMark
  rw [Parser.peek_bind, reader_bind_ok looked]
  refine AgreesAt.ite (fun isMark => ?_) fun _ _ => ⟨_, rfl, rfl⟩
  cases tokens with
  | nil =>
    have isFinal : final.lexeme = .punctuation mark := isMark
    rw [closed] at isFinal
    contradiction
  | cons token others =>
    have advanced : advance ⟨token :: others ++ [final], 0, []⟩
        = some (.ok token, ⟨token :: others ++ [final], 1, []⟩) := by
      unfold advance
      rw [reader_bind_ok looked, List.headD_cons, if_neg (inner token List.mem_cons_self)]
      rfl
    exact ⟨_, advanced, ⟨[], token, rfl, rfl, rfl⟩, rfl, closed, fun other member =>
      inner other (List.mem_cons_of_mem _ member)⟩

theorem program_agrees_start (fuel : Nat) (closed : final.lexeme = .eof)
    (inner : ∀ token ∈ tokens, token.lexeme ≠ .eof) :
    AgreesAt options.program (Parser.program options fuel) ⟨tokens, final, 0, []⟩ ⟨tokens ++ [final], 0, []⟩ := by
  have opens := takeMark_agrees_start .openBrace closed inner
  have whole : AgreesAt options.block (Parser.block options fuel) ⟨tokens, final, 0, []⟩
      ⟨tokens ++ [final], 0, []⟩ := by
    cases fuel with
    | zero => exact fun known => absurd rfl known
    | succ fuel => exact block_succ_agrees (blocks_agree fuel).2.1 opens
  refine whole.bind fun _ after _ follows => .peek follows ?_
  cases lexeme : after.next.lexeme with
  | eof => exact agreesAt_pure _ follows
  | keyword | identifier | number | string | punctuation => exact agreesAt_fail _ _ follows

/-- Reading by an index ends for every text without a defect, and gives what is read within the bound. -/
theorem parse_eq (source : Text) (options : Options) :
    parse source options = some (.ok (Ir.parse source options)) := by
  cases scanned : Token.scan source with
  | error error => rw [parse, Ir.parse, Token.ofText, scanned]; rfl
  | ok tokens =>
    have read : Token.ofText source = .ok (tokens ++ [Token.atEnd source]) := by
      rw [Token.ofText, scanned]; rfl
    have agrees : AgreesAt options.program (Parser.program options (Parser.bound tokens))
        ⟨tokens, Token.atEnd source, 0, []⟩ ⟨tokens ++ [Token.atEnd source], 0, []⟩ :=
      program_agrees_start _ rfl (Token.scan_iff.mp scanned).ne_eof
    unfold AgreesAt at agrees
    rw [parse_scanned scanned, parseTokens, parse, read]
    cases ended : Parser.program options (Parser.bound tokens) ⟨tokens, Token.atEnd source, 0, []⟩ with
    | ok tree after =>
      rw [ended] at agrees
      obtain ⟨reached, done, follows⟩ := agrees
      simp only [ExceptT.run, done, Option.map_some, parsed, follows.warnings]
    | error error after =>
      rw [ended] at agrees
      obtain ⟨reached, failed, warnings⟩ := agrees (Parser.whole_refuses rfl ended).known
      simp only [ExceptT.run, failed, Option.map_some, parsed, warnings]

end

end ContractAsm.Ir.Indexed

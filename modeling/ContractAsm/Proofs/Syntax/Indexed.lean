import ContractAsm.Ir.Parser

/-!
# Reading by an index

The reading of a block over one state: all tokens with the end mark behind them, the index of the
next one, and what was warned of. There is no bound on nesting, so that reading may go on forever,
and nothing about the tokens is taken for granted: to look where there is no token, and to find no
literal where one was seen, are defects.
-/

namespace ContractAsm.Ir.Indexed

/-- What must not happen whatever the text is. -/
inductive Defect where
  /-- There is no token to look at. -/
  | noEndMark
  /-- A literal is read where none stands. -/
  | expectedLiteral (got : Lexeme)
deriving DecidableEq, Repr

/-- Why reading ends early. -/
inductive Stop where
  | fault (error : SyntaxError)
  | defect (defect : Defect)

structure State where
  tokens : List Token
  index : Nat
  warnings : List Location

/-- What a text is read with. -/
abbrev Options := Dialect

/-- What reads on from a state. It may end early, which keeps the state, or never end. -/
abbrev Reader := ExceptT Stop (StateT State Option)

/-! ## Single tokens -/

/-- The token at a distance from the next one, or else the last one. -/
def peekAt (offset : Nat) : Reader Token := do
  let state ← get
  match state.tokens[min (state.index + offset) (state.tokens.length - 1)]? with
  | some token => return token
  | none => throw (.defect .noEndMark)

def peek : Reader Token := peekAt 0

/-- Takes the next token. The end mark stays where it is. -/
def advance : Reader Token := do
  let token ← peek
  if token.lexeme = .eof then return token
  else
    modify fun state => { state with index := state.index + 1 }
    return token

def fail {α : Type} (fault : SyntaxFault) (token : Token) : Reader α :=
  throw (.fault ⟨fault, token.start, token.stop⟩)

def warn (location : Location) : Reader Unit :=
  modify fun state => { state with warnings := state.warnings ++ [location] }

def State.previous? (state : State) : Option Token :=
  if state.index = 0 then none else state.tokens[state.index - 1]?

/-- The range from an offset up to the end of the last token taken, empty if there is none. -/
def Options.rangeFrom (options : Options) (start : Nat) : Reader Location := do
  let state ← get
  return options.location start ((state.previous?.map Token.stop).getD start)

def isNextMark (mark : Punctuation) : Reader Bool := do return (← peek).lexeme = .punctuation mark

def takeMark (mark : Punctuation) : Reader Token := do
  let token ← peek
  if token.lexeme = .punctuation mark then advance else fail (.expectedMark mark token.lexeme) token

def takeName : Reader (Text × Token) := do
  let token ← peek
  match token.lexeme with
  | .identifier name => do
      let _ ← advance
      return (name, token)
  | got => fail (.expectedIdentifier got) token

def takeWord : Reader Text := do return (← takeName).1

/-- What stands behind commas from here on, one element behind each. -/
def Reader.behindCommas {α : Type} (element : Reader α) : Reader (List α) := do
  if ← isNextMark .comma then
    let _ ← advance
    let next ← element
    return next :: (← element |>.behindCommas)
  else return []
partial_fixpoint

/-! ## Types and names -/

def Options.annotatedType (options : Options) (missing : SyntaxFault) (owner : Token) : Reader Text := do
  if ← isNextMark .colon then
    let colon ← advance
    if options.typed then takeWord else fail .annotationInUntyped colon
  else if options.typed then fail missing owner
  else return .empty

def Options.typedName (options : Options) : Reader TypedName := do
  let (name, token) ← takeName
  let type ← options.annotatedType (.untypedName name) token
  return ⟨name, some type⟩

def Options.typedNames (options : Options) : Reader (List TypedName) := do
  let declared ← options.typedName
  return declared :: (← options.typedName.behindCommas)

/-! ## Expressions -/

def startsLiteral (token : Token) : Bool := (Parser.literalOf? token.lexeme).isSome

def Options.literal (options : Options) : Reader Literal := do
  let token ← advance
  match Parser.literalOf? token.lexeme with
  | some (kind, value) =>
      let type ← options.annotatedType (.untypedLiteral value) token
      return ⟨kind, value, some type, some (← options.rangeFrom token.start)⟩
  | none => throw (.defect (.expectedLiteral token.lexeme))

mutual

def Options.expression (options : Options) : Reader Expression := do
  let token ← peek
  if startsLiteral token then return .literal (← options.literal)
  else
    match token.lexeme with
    | .identifier name =>
        let _ ← advance
        if ← isNextMark .openParen then
          let _ ← advance
          let arguments ← options |>.callArguments
          return .functionCall name arguments (some (← options.rangeFrom token.start))
        else return .identifier name (some (options.location token.start token.stop))
    | lexeme => fail (.expectedExpression lexeme) token
partial_fixpoint

def Options.callArguments (options : Options) : Reader (List Expression) := do
  if ← isNextMark .closeParen then
    let _ ← takeMark .closeParen
    return []
  else
    let first ← options |>.expression
    return first :: (← options |>.furtherArguments)
partial_fixpoint

def Options.furtherArguments (options : Options) : Reader (List Expression) := do
  if ← isNextMark .comma then
    let _ ← advance
    let next ← options |>.expression
    return next :: (← options |>.furtherArguments)
  else
    let _ ← takeMark .closeParen
    return []
partial_fixpoint

end

/-! ## Statements without blocks -/

def Options.variableDeclaration (options : Options) : Reader Statement := do
  let word ← advance
  let names ← options.typedNames
  if ← isNextMark .assign then
    let _ ← advance
    let value ← options.expression
    return .variableDeclaration names (some value) (some (← options.rangeFrom word.start))
  else return .variableDeclaration names none (some (← options.rangeFrom word.start))

def Options.assignment (options : Options) (name : Text) : Reader Statement := do
  let first ← advance
  let names ← takeWord.behindCommas
  let _ ← takeMark .assign
  let value ← options.expression
  return .assignment (name :: names) value (some (← options.rangeFrom first.start))

def Options.callStatement (options : Options) : Reader Statement := do
  let first ← peek
  match ← options.expression with
  | .functionCall name arguments location => return .expression (.functionCall name arguments location)
  | _ => fail .expressionStatement first

def Options.simpleStatement (options : Options) : Reader Statement := do
  let first ← peek
  let second ← peekAt 1
  match first.lexeme, second.lexeme with
  | .identifier name, .punctuation .assign => options.assignment name
  | .identifier name, .punctuation .comma => options.assignment name
  | _, _ => options.callStatement

def Options.parameterList (options : Options) : Reader (List TypedName) := do
  let _ ← takeMark .openParen
  let parameters ← if ← isNextMark .closeParen then pure [] else options.typedNames
  let _ ← takeMark .closeParen
  return parameters

def Options.resultList (options : Options) : Reader (List TypedName) := do
  if ← isNextMark .arrow then
    let _ ← advance
    options.typedNames
  else return []

/-- The switch over some cases, of which there is one at least. A default alone is warned of. -/
def Options.switchOver (options : Options) (word : Token) (value : Expression) (cases : List Case) (hasDefault : Bool) :
    Reader Statement := do
  if cases.isEmpty then fail .switchWithoutCases word
  else
    let location ← options.rangeFrom word.start
    if cases.length = 1 ∧ hasDefault = true then
      warn location
    return .switch value cases (some location)

/-! ## Blocks -/

mutual

def Options.block (options : Options) : Reader Block := do
  let opening ← takeMark .openBrace
  let statements ← options |>.statements
  return .mk statements (some (← options.rangeFrom opening.start))
partial_fixpoint

def Options.statements (options : Options) : Reader (List Statement) := do
  if ← isNextMark .closeBrace then
    let _ ← advance
    return []
  else
    let token ← peek
    if token.lexeme = .eof then fail .unterminatedBlock token
    else
      let first ← options |>.statement
      return first :: (← options |>.statements)
partial_fixpoint

def Options.statement (options : Options) : Reader Statement := do
  let token ← peek
  match token.lexeme with
  | .punctuation .openBrace => return .block (← options |>.block)
  | .keyword .functionWord => options |>.functionDefinition
  | .keyword .letWord => options.variableDeclaration
  | .keyword .switchWord => options |>.switchStatement
  | .keyword .ifWord => options |>.conditional
  | .keyword .forWord => options |>.loop
  | .keyword .breakWord =>
      let _ ← advance
      return .breakLoop (some (options.location token.start token.stop))
  | .keyword .continueWord =>
      let _ ← advance
      return .continueLoop (some (options.location token.start token.stop))
  | _ => options.simpleStatement
partial_fixpoint

def Options.functionDefinition (options : Options) : Reader Statement := do
  let word ← advance
  let (name, _) ← takeName
  let parameters ← options.parameterList
  let results ← options.resultList
  let body ← options |>.block
  return .functionDefinition name parameters results body (some (← options.rangeFrom word.start))
partial_fixpoint

def Options.conditional (options : Options) : Reader Statement := do
  let word ← advance
  let condition ← options.expression
  let body ← options |>.block
  return .ifThen condition body (some (← options.rangeFrom word.start))
partial_fixpoint

def Options.loop (options : Options) : Reader Statement := do
  let word ← advance
  let pre ← options |>.block
  let condition ← options.expression
  let post ← options |>.block
  let body ← options |>.block
  return .forLoop pre condition post body (some (← options.rangeFrom word.start))
partial_fixpoint

def Options.switchStatement (options : Options) : Reader Statement := do
  let word ← advance
  let value ← options.expression
  let (cases, hasDefault) ← options |>.cases false
  options.switchOver word value cases hasDefault
partial_fixpoint

/-- The cases of a switch, and whether one of them is the default. The flag tells that the default
has been read. -/
def Options.cases (options : Options) (hasDefault : Bool) : Reader (List Case × Bool) := do
  let token ← peek
  match token.lexeme with
  | .keyword .caseWord =>
      if hasDefault then fail .caseAfterDefault token
      else
        let word ← advance
        let next ← peek
        if startsLiteral next then
          let value ← options.literal
          let body ← options |>.block
          let location ← options.rangeFrom word.start
          let (others, found) ← options |>.cases hasDefault
          return (.mk (some (.literal value)) body (some location) :: others, found)
        else fail (.expectedCaseLiteral next.lexeme) next
  | .keyword .defaultWord =>
      if hasDefault then fail .repeatedDefault token
      else
        let _ ← advance
        let body ← options |>.block
        let location ← options.rangeFrom token.start
        let (others, found) ← options |>.cases true
        return (.mk none body (some location) :: others, found)
  | _ => return ([], hasDefault)
partial_fixpoint

end

def Options.program (options : Options) : Reader Block := do
  let block ← options.block
  let token ← peek
  match token.lexeme with
  | .eof => return block
  | got => fail (.afterBlock got) token

/-! ## Whole texts -/

/-- What comes of a reading that ended: an error of the text is a finding, a defect is not. -/
def parsed (options : Options) : Except Stop Block × State → Except Defect Parsed
  | (.ok block, state) => .ok ⟨some block, state.warnings.map .onlyDefaultCase⟩
  | (.error (.fault error), state) =>
      .ok ⟨none, state.warnings.map .onlyDefaultCase
        ++ [.error error.fault (options.location error.start error.stop)]⟩
  | (.error (.defect defect), _) => .error defect

/-- Reads a text that consists of exactly one block. There is no result if reading never ends. -/
def parse (source : Text) (options : Options) : Option (Except Defect Parsed) :=
  match Token.ofText source with
  | .ok tokens => (options.program.run ⟨tokens, 0, []⟩).map (parsed options)
  | .error error =>
      some (.ok ⟨none, [.error (.lexical error.fault) (options.location error.start error.stop)]⟩)

end ContractAsm.Ir.Indexed

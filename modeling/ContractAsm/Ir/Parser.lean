import ContractAsm.Ir.Basic
import ContractAsm.Ir.Diagnostic

/-!
# Reading assembly text

A text is one block. The typed dialect wants a type on every literal and every declared
name, the untyped one wants none. Reading looks at most two tokens ahead and never goes
back; the first error ends it, and the warnings found before are kept.

Every recursive function takes a bound first, which each call lowers by one. `parse` reads
with a bound that its tokens cannot use up.
-/

namespace ContractAsm.Ir

/-- Whether types are written, and the source name that every location carries. -/
structure Dialect where
  typed : Bool := true
  source : Text := "<input>"
deriving DecidableEq, Repr, Inhabited

def Dialect.location (dialect : Dialect) (start stop : Nat) : Location :=
  .ofOffsets start stop dialect.source

structure SyntaxError where
  fault : SyntaxFault
  start : Nat
  stop : Nat
deriving DecidableEq, Repr

/-- Where reading stands: the tokens that are left, the end mark behind them, the offset at
which the last token taken ended, and the places of the warnings so far. -/
structure Cursor where
  rest : List Token
  final : Token
  last : Nat
  warnings : List Location

abbrev Parser := EStateM SyntaxError Cursor

namespace Parser

/-! ## Single tokens -/

def peek : Parser Token := fun cursor => .ok (cursor.rest.headD cursor.final) cursor

def peekSecond : Parser Token := fun cursor => .ok (cursor.rest.tail.headD cursor.final) cursor

/-- Takes the next token. The end mark stays where it is. -/
def take : Parser Token := fun cursor =>
  match cursor.rest with
  | token :: rest => .ok token { cursor with rest := rest, last := token.stop }
  | [] => .ok cursor.final cursor

def fail {α : Type} (fault : SyntaxFault) (token : Token) : Parser α := fun cursor =>
  .error ⟨fault, token.start, token.stop⟩ cursor

def warn (location : Location) : Parser Unit := fun cursor =>
  .ok () { cursor with warnings := cursor.warnings ++ [location] }

def rangeFrom (dialect : Dialect) (start : Nat) : Parser Location := fun cursor =>
  .ok (dialect.location start cursor.last) cursor

def isNext (lexeme : Lexeme) : Parser Bool := do return (← peek).lexeme = lexeme

def isNextMark (mark : Punctuation) : Parser Bool := isNext (.punctuation mark)

def takeMark (mark : Punctuation) : Parser Token := do
  let token ← peek
  if token.lexeme = .punctuation mark then take else fail (.expectedMark mark token.lexeme) token

def takeName : Parser (Text × Token) := do
  let token ← peek
  match token.lexeme with
  | .identifier name => do
      let _ ← take
      return (name, token)
  | got => fail (.expectedIdentifier got) token

/-! ## Types and names -/

/-- The type after a colon, which the dialect demands or forbids. `missing` is reported at
the token `owner` where a type is wanted and none stands. -/
def annotation (dialect : Dialect) (missing : SyntaxFault) (owner : Token) : Parser Text := do
  if ← isNextMark .colon then
    let colon ← take
    if dialect.typed then
      return (← takeName).1
    else fail .annotationInUntyped colon
  else if dialect.typed then fail missing owner
  else return .empty

def typedName (dialect : Dialect) : Parser TypedName := do
  let (name, token) ← takeName
  let type ← annotation dialect (.untypedName name) token
  return ⟨name, some type⟩

def furtherTypedNames (dialect : Dialect) : Nat → Parser (List TypedName)
  | 0 => do fail .exhausted (← peek)
  | fuel + 1 => do
      if ← isNextMark .comma then
        let _ ← take
        let declared ← typedName dialect
        return declared :: (← furtherTypedNames dialect fuel)
      else return []

def typedNames (dialect : Dialect) (fuel : Nat) : Parser (List TypedName) := do
  let declared ← typedName dialect
  return declared :: (← furtherTypedNames dialect fuel)

def furtherNames : Nat → Parser (List Text)
  | 0 => do fail .exhausted (← peek)
  | fuel + 1 => do
      if ← isNextMark .comma then
        let _ ← take
        let (name, _) ← takeName
        return name :: (← furtherNames fuel)
      else return []

/-! ## Expressions -/

def literalOf? : Lexeme → Option (Literal.Kind × Text)
  | .number digits => some (.number, digits)
  | .string body => some (.string, body)
  | .keyword .trueWord => some (.bool, "true")
  | .keyword .falseWord => some (.bool, "false")
  | _ => none

def literal (dialect : Dialect) (kind : Literal.Kind) (value : Text) : Parser Literal := do
  let token ← take
  let type ← annotation dialect (.untypedLiteral value) token
  return ⟨kind, value, some type, some (← rangeFrom dialect token.start)⟩

mutual

def expression (dialect : Dialect) : Nat → Parser Expression
  | 0 => do fail .exhausted (← peek)
  | fuel + 1 => do
      let token ← peek
      match token.lexeme with
      | .identifier name =>
          let _ ← take
          if ← isNextMark .openParen then
            let _ ← take
            let arguments ← callArguments dialect fuel
            return .functionCall name arguments (some (← rangeFrom dialect token.start))
          else return .identifier name (some (dialect.location token.start token.stop))
      | lexeme =>
          match literalOf? lexeme with
          | some (kind, value) => return .literal (← literal dialect kind value)
          | none => fail (.expectedExpression lexeme) token

def callArguments (dialect : Dialect) : Nat → Parser (List Expression)
  | 0 => do fail .exhausted (← peek)
  | fuel + 1 => do
      if ← isNextMark .closeParen then
        let _ ← take
        return []
      else
        let first ← expression dialect fuel
        return first :: (← furtherArguments dialect fuel)

def furtherArguments (dialect : Dialect) : Nat → Parser (List Expression)
  | 0 => do fail .exhausted (← peek)
  | fuel + 1 => do
      if ← isNextMark .comma then
        let _ ← take
        let next ← expression dialect fuel
        return next :: (← furtherArguments dialect fuel)
      else
        let _ ← takeMark .closeParen
        return []

end

/-! ## Statements without blocks -/

def variableDeclaration (dialect : Dialect) (fuel : Nat) : Parser Statement := do
  let word ← take
  let names ← typedNames dialect fuel
  if ← isNextMark .assign then
    let _ ← take
    let value ← expression dialect fuel
    return .variableDeclaration names (some value) (some (← rangeFrom dialect word.start))
  else return .variableDeclaration names none (some (← rangeFrom dialect word.start))

def assignment (dialect : Dialect) (fuel : Nat) (name : Text) : Parser Statement := do
  let first ← take
  let names ← furtherNames fuel
  let _ ← takeMark .assign
  let value ← expression dialect fuel
  return .assignment (name :: names) value (some (← rangeFrom dialect first.start))

def callStatement (dialect : Dialect) (fuel : Nat) : Parser Statement := do
  let first ← peek
  match ← expression dialect fuel with
  | .functionCall name arguments location => return .expression (.functionCall name arguments location)
  | _ => fail .expressionStatement first

/-- An assignment if a name and then a comma or `:=` come next, else a call. -/
def simpleStatement (dialect : Dialect) (fuel : Nat) : Parser Statement := do
  let first ← peek
  let second ← peekSecond
  match first.lexeme, second.lexeme with
  | .identifier name, .punctuation .assign => assignment dialect fuel name
  | .identifier name, .punctuation .comma => assignment dialect fuel name
  | _, _ => callStatement dialect fuel

def parameterList (dialect : Dialect) (fuel : Nat) : Parser (List TypedName) := do
  let _ ← takeMark .openParen
  let parameters ← if ← isNextMark .closeParen then pure [] else typedNames dialect fuel
  let _ ← takeMark .closeParen
  return parameters

def resultList (dialect : Dialect) (fuel : Nat) : Parser (List TypedName) := do
  if ← isNextMark .arrow then
    let _ ← take
    typedNames dialect fuel
  else return []

/-- The switch over some cases, of which there is one at least. A default alone is warned
of. -/
def switchOver (token : Token) (value : Expression) (location : Location) :
    List Case → Parser Statement
  | [] => fail .switchWithoutCases token
  | [only] => do
      if only.isDefault then warn location
      return .switch value [only] (some location)
  | cases => return .switch value cases (some location)

/-! ## Blocks -/

mutual

def block (dialect : Dialect) : Nat → Parser Block
  | 0 => do fail .exhausted (← peek)
  | fuel + 1 => do
      let opening ← takeMark .openBrace
      let statements ← statements dialect fuel
      return .mk statements (some (← rangeFrom dialect opening.start))

/-- Statements and the brace that closes them. -/
def statements (dialect : Dialect) : Nat → Parser (List Statement)
  | 0 => do fail .exhausted (← peek)
  | fuel + 1 => do
      let token ← peek
      match token.lexeme with
      | .punctuation .closeBrace =>
          let _ ← take
          return []
      | .eof => fail .unterminatedBlock token
      | _ =>
          let first ← statement dialect fuel
          return first :: (← statements dialect fuel)

def statement (dialect : Dialect) : Nat → Parser Statement
  | 0 => do fail .exhausted (← peek)
  | fuel + 1 => do
      let token ← peek
      match token.lexeme with
      | .punctuation .openBrace => return .block (← block dialect fuel)
      | .keyword .functionWord =>
          let _ ← take
          let (name, _) ← takeName
          let parameters ← parameterList dialect fuel
          let results ← resultList dialect fuel
          let body ← block dialect fuel
          return .functionDefinition name parameters results body
            (some (← rangeFrom dialect token.start))
      | .keyword .letWord => variableDeclaration dialect fuel
      | .keyword .switchWord =>
          let _ ← take
          let value ← expression dialect fuel
          let cases ← cases dialect fuel false
          let location ← rangeFrom dialect token.start
          switchOver token value location cases
      | .keyword .ifWord =>
          let _ ← take
          let condition ← expression dialect fuel
          let body ← block dialect fuel
          return .ifThen condition body (some (← rangeFrom dialect token.start))
      | .keyword .forWord =>
          let _ ← take
          let pre ← block dialect fuel
          let condition ← expression dialect fuel
          let post ← block dialect fuel
          let body ← block dialect fuel
          return .forLoop pre condition post body (some (← rangeFrom dialect token.start))
      | .keyword .breakWord =>
          let _ ← take
          return .breakLoop (some (dialect.location token.start token.stop))
      | .keyword .continueWord =>
          let _ ← take
          return .continueLoop (some (dialect.location token.start token.stop))
      | _ => simpleStatement dialect fuel

/-- The cases of a switch. The flag tells that the default has been read, after which no
case may follow. -/
def cases (dialect : Dialect) : Nat → Bool → Parser (List Case)
  | 0, _ => do fail .exhausted (← peek)
  | fuel + 1, hasDefault => do
      let token ← peek
      match token.lexeme with
      | .keyword .caseWord =>
          if hasDefault then fail .caseAfterDefault token
          else
            let _ ← take
            let value ← peek
            match literalOf? value.lexeme with
            | none => fail (.expectedCaseLiteral value.lexeme) value
            | some (kind, text) =>
                let value ← literal dialect kind text
                let body ← block dialect fuel
                let location ← rangeFrom dialect token.start
                return .mk (some (.literal value)) body (some location) :: (← cases dialect fuel false)
      | .keyword .defaultWord =>
          if hasDefault then fail .repeatedDefault token
          else
            let _ ← take
            let body ← block dialect fuel
            let location ← rangeFrom dialect token.start
            return .mk none body (some location) :: (← cases dialect fuel true)
      | _ => return []

end

def program (dialect : Dialect) (fuel : Nat) : Parser Block := do
  let block ← block dialect fuel
  let token ← peek
  match token.lexeme with
  | .eof => return block
  | got => fail (.afterBlock got) token

/-- A bound that a number of tokens cannot use up: a token is taken at the latest on every
third call. -/
def bound (tokens : List Token) : Nat := 4 * tokens.length + 4

end Parser

/-! ## Whole texts -/

/-- The block that was read, unless an error ended the reading, and what was found. -/
structure Parsed where
  block : Option Block
  diagnostics : List Diagnostic

def parseTokens (dialect : Dialect) (tokens : List Token) (final : Token) : Parsed :=
  match Parser.program dialect (Parser.bound tokens) ⟨tokens, final, 0, []⟩ with
  | .ok block cursor => ⟨some block, cursor.warnings.map .onlyDefaultCase⟩
  | .error error cursor =>
      ⟨none, cursor.warnings.map .onlyDefaultCase
        ++ [.error error.fault (dialect.location error.start error.stop)]⟩

/-- Reads a text that consists of exactly one block. -/
def parse (source : Text) (dialect : Dialect) : Parsed :=
  match Token.scan source with
  | .ok tokens => parseTokens dialect tokens (Token.atEnd source)
  | .error error =>
      ⟨none, [.error (.lexical error.fault) (dialect.location error.start error.stop)]⟩

end ContractAsm.Ir

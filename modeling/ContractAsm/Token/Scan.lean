import ContractAsm.Token.Basic

/-!
# Scanning

A text is blanks and comments with lexemes between them. Every scanning function takes the
units that are left and the offset at which they stand. The longest lexeme is taken; a
number must not run into an identifier.
-/

namespace ContractAsm

open CodeUnit (quote newline backslash slash asterisk colon equals minus greater comma zero lowerX
  openBrace closeBrace openParen closeParen)

inductive LexicalFault where
  | unterminatedComment
  | hexWithoutDigits
  | invalidNumberCharacter (unit : CodeUnit)
  | unterminatedString
  | unexpectedCharacter (unit : CodeUnit)
deriving DecidableEq, Repr

def LexicalFault.message : LexicalFault → Text
  | unterminatedComment => "Unterminated comment"
  | hexWithoutDigits => "Hex number without digits"
  | invalidNumberCharacter unit => "Invalid character in number literal: " ++ ⟨[unit]⟩
  | unterminatedString => "Unterminated string literal"
  | unexpectedCharacter unit => "Unexpected character: " ++ ⟨[unit]⟩

structure LexicalError where
  fault : LexicalFault
  start : Nat
  stop : Nat
deriving DecidableEq, Repr

namespace Token

/-! ## Classes of units -/

/-- A letter of the basic alphabet, `_` or `$`. -/
def startsWord (unit : CodeUnit) : Bool :=
  unit.isLetter || unit = CodeUnit.underscore || unit = CodeUnit.dollar

/-- A unit that may start a word, a digit, or a point. -/
def continuesWord (unit : CodeUnit) : Bool := startsWord unit || unit.isDigit || unit = CodeUnit.dot

def isBlank (unit : CodeUnit) : Bool :=
  unit = CodeUnit.space || unit = CodeUnit.tab || unit = newline || unit = CodeUnit.carriageReturn

/-! ## Blanks and comments -/

/-- Where a run of blanks and comments stands: between comments, in a line comment, or in a
block comment that was opened at an offset. -/
inductive Gap where
  | between
  | line
  | block (opened : Nat)

def skipGap : Gap → List CodeUnit → Nat → Except LexicalError (List CodeUnit × Nat)
  | .between, slash :: slash :: rest, pos => skipGap .line rest (pos + 2)
  | .between, slash :: asterisk :: rest, pos => skipGap (.block pos) rest (pos + 2)
  | .between, unit :: rest, pos =>
      if isBlank unit then skipGap .between rest (pos + 1) else .ok (unit :: rest, pos)
  | .line, newline :: rest, pos => skipGap .between rest (pos + 1)
  | .line, _ :: rest, pos => skipGap .line rest (pos + 1)
  | .block _, asterisk :: slash :: rest, pos => skipGap .between rest (pos + 2)
  | .block opened, _ :: rest, pos => skipGap (.block opened) rest (pos + 1)
  | .block opened, [], pos => .error ⟨.unterminatedComment, opened, pos⟩
  | .between, [], pos => .ok ([], pos)
  | .line, [], pos => .ok ([], pos)

/-! ## Lexemes -/

def takeWord (input : List CodeUnit) (pos : Nat) : Token × List CodeUnit :=
  let word := input.takeWhile continuesWord
  (⟨.ofWord ⟨word⟩, pos, pos + word.length⟩, input.dropWhile continuesWord)

/-- A number whose units are known, unless the next unit would continue it. A point does
not. -/
def endNumber (number rest : List CodeUnit) (pos : Nat) : Except LexicalError (Token × List CodeUnit) :=
  let stop := pos + number.length
  let done : Except LexicalError (Token × List CodeUnit) := .ok (⟨.number ⟨number⟩, pos, stop⟩, rest)
  match rest with
  | unit :: _ =>
      if continuesWord unit && unit != CodeUnit.dot then
        .error ⟨.invalidNumberCharacter unit, pos, stop + 1⟩
      else done
  | [] => done

/-- A decimal number, or a hexadecimal one after `0x`. -/
def takeNumber (input : List CodeUnit) (pos : Nat) : Except LexicalError (Token × List CodeUnit) :=
  match input with
  | zero :: lowerX :: digits =>
      match digits.takeWhile CodeUnit.isHexDigit with
      | [] => .error ⟨.hexWithoutDigits, pos, pos + 2⟩
      | hex => endNumber (zero :: lowerX :: hex) (digits.dropWhile CodeUnit.isHexDigit) pos
  | _ => endNumber (input.takeWhile CodeUnit.isDigit) (input.dropWhile CodeUnit.isDigit) pos

/-- A string body up to its closing quote: units, and pairs of a backslash and any unit, a
line break included. A failure tells the offset it was noticed at. -/
def takeBody : List CodeUnit → Nat → Except Nat (List CodeUnit × List CodeUnit × Nat)
  | [], pos => .error pos
  | [backslash], pos => .error (pos + 2)
  | backslash :: unit :: rest, pos => do
      let (body, after) ← takeBody rest (pos + 2)
      return (backslash :: unit :: body, after)
  | unit :: rest, pos =>
      if unit = newline then .error pos
      else if unit = quote then .ok ([], rest, pos + 1)
      else do
        let (body, after) ← takeBody rest (pos + 1)
        return (unit :: body, after)

def takeString (input : List CodeUnit) (pos : Nat) : Except LexicalError (Token × List CodeUnit) :=
  match takeBody input (pos + 1) with
  | .ok (body, rest, stop) => .ok (⟨.string ⟨body⟩, pos, stop⟩, rest)
  | .error stop => .error ⟨.unterminatedString, pos, stop⟩

/-- The longest mark at the head of the input. -/
def takeMark? : List CodeUnit → Option (Punctuation × List CodeUnit)
  | colon :: equals :: rest => some (.assign, rest)
  | minus :: greater :: rest => some (.arrow, rest)
  | openBrace :: rest => some (.openBrace, rest)
  | closeBrace :: rest => some (.closeBrace, rest)
  | openParen :: rest => some (.openParen, rest)
  | closeParen :: rest => some (.closeParen, rest)
  | comma :: rest => some (.comma, rest)
  | colon :: rest => some (.colon, rest)
  | _ => none

def takeLexeme (first : CodeUnit) (rest : List CodeUnit) (pos : Nat) :
    Except LexicalError (Token × List CodeUnit) :=
  if startsWord first then .ok (takeWord (first :: rest) pos)
  else if first.isDigit then takeNumber (first :: rest) pos
  else if first = quote then takeString rest pos
  else
    match takeMark? (first :: rest) with
    | some (mark, rest) => .ok (⟨.punctuation mark, pos, pos + mark.text.length⟩, rest)
    | none => .error ⟨.unexpectedCharacter first, pos, pos + 1⟩

/-- The lexemes of the input, without the end mark. Each step takes at least one unit, so a
bound above the length of the input is never reached. -/
def scanAll : Nat → List CodeUnit → Nat → Except LexicalError (List Token)
  | 0, _, _ => .ok []
  | fuel + 1, input, pos => do
      let (input, pos) ← skipGap .between input pos
      match input with
      | [] => return []
      | first :: rest =>
          let (token, rest) ← takeLexeme first rest pos
          return token :: (← scanAll fuel rest token.stop)

def scan (source : Text) : Except LexicalError (List Token) :=
  scanAll (source.length + 1) source.units 0

def atEnd (source : Text) : Token := ⟨.eof, source.length, source.length⟩

/-- The lexemes of a text and its end mark. -/
def ofText (source : Text) : Except LexicalError (List Token) := do
  return (← scan source) ++ [atEnd source]

end Token

end ContractAsm

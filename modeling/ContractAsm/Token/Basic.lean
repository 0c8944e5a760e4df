import ContractAsm.Text.Basic

/-!
# Tokens

The lexemes of the assembly text and the places where they stand. Offsets count code units.
-/

namespace ContractAsm

inductive Keyword where
  | functionWord
  | letWord
  | switchWord
  | caseWord
  | defaultWord
  | ifWord
  | forWord
  | breakWord
  | continueWord
  | trueWord
  | falseWord
deriving DecidableEq, Repr

namespace Keyword

def text : Keyword → Text
  | functionWord => "function"
  | letWord => "let"
  | switchWord => "switch"
  | caseWord => "case"
  | defaultWord => "default"
  | ifWord => "if"
  | forWord => "for"
  | breakWord => "break"
  | continueWord => "continue"
  | trueWord => "true"
  | falseWord => "false"

def all : List Keyword :=
  [functionWord, letWord, switchWord, caseWord, defaultWord, ifWord, forWord, breakWord,
    continueWord, trueWord, falseWord]

def ofText? (text : Text) : Option Keyword := all.find? fun word => word.text == text

end Keyword

inductive Punctuation where
  | assign
  | arrow
  | openBrace
  | closeBrace
  | openParen
  | closeParen
  | comma
  | colon
deriving DecidableEq, Repr

def Punctuation.text : Punctuation → Text
  | assign => ":="
  | arrow => "->"
  | openBrace => "\x7b"
  | closeBrace => "\x7d"
  | openParen => "("
  | closeParen => ")"
  | comma => ","
  | colon => ":"

/-- A lexeme. A string keeps its escape pairs as written and stands without its quotes. -/
inductive Lexeme where
  | identifier (name : Text)
  | keyword (word : Keyword)
  | number (digits : Text)
  | string (body : Text)
  | punctuation (mark : Punctuation)
  | eof
deriving DecidableEq, Repr, Inhabited

namespace Lexeme

def kind : Lexeme → Text
  | identifier _ => "identifier"
  | keyword _ => "keyword"
  | number _ => "number"
  | string _ => "string"
  | punctuation _ => "punctuation"
  | eof => "eof"

def text : Lexeme → Text
  | identifier name => name
  | keyword word => word.text
  | number digits => digits
  | string body => body
  | punctuation mark => mark.text
  | eof => .empty

def shown : Lexeme → Text
  | eof => "end of input"
  | lexeme => "\"" ++ lexeme.text ++ "\""

/-- A word is a keyword if it is reserved and an identifier otherwise. -/
def ofWord (word : Text) : Lexeme :=
  match Keyword.ofText? word with
  | some reserved => keyword reserved
  | none => identifier word

end Lexeme

/-- A lexeme with the offsets of its first unit and of the first unit after it. -/
structure Token where
  lexeme : Lexeme
  start : Nat
  stop : Nat
deriving DecidableEq, Repr, Inhabited

end ContractAsm

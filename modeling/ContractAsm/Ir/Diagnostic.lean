import ContractAsm.Location
import ContractAsm.Token.Scan

/-!
# Diagnostics

What reading assembly text can find fault with. An error ends the reading, a warning does
not; the only warning is for a switch that has nothing but a default case.
-/

namespace ContractAsm.Ir

inductive SyntaxFault where
  | lexical (fault : LexicalFault)
  | expectedMark (mark : Punctuation) (got : Lexeme)
  | expectedIdentifier (got : Lexeme)
  | expectedExpression (got : Lexeme)
  | expectedCaseLiteral (got : Lexeme)
  | annotationInUntyped
  | untypedName (name : Text)
  | untypedLiteral (value : Text)
  | unterminatedBlock
  | caseAfterDefault
  | repeatedDefault
  | switchWithoutCases
  | expressionStatement
  | afterBlock (got : Lexeme)
  /-- The bound on nesting was reached. The bound that a text is read with is never reached. -/
  | exhausted
deriving DecidableEq, Repr

def SyntaxFault.message : SyntaxFault → Text
  | lexical fault => fault.message
  | expectedMark mark got => "Expected \"" ++ mark.text ++ "\" but got " ++ got.shown
  | expectedIdentifier got => "Expected identifier but got " ++ got.shown
  | expectedExpression got => "Expected expression but got " ++ got.shown
  | expectedCaseLiteral got => "Expected literal after \"case\" but got " ++ got.shown
  | annotationInUntyped => "Type annotations are not allowed in untyped mode"
  | untypedName name => "Missing type annotation on \"" ++ name ++ "\""
  | untypedLiteral value => "Missing type annotation on literal " ++ value
  | unterminatedBlock => "Unterminated block"
  | caseAfterDefault => "Case not allowed after default case"
  | repeatedDefault => "Only one default case allowed"
  | switchWithoutCases => "Switch statement without any cases"
  | expressionStatement => "Expression statements must be function calls"
  | afterBlock got => "Unexpected " ++ got.shown ++ " after top-level block"
  | exhausted => "Nesting too deep"

/-- A finding and the place it is reported at. -/
inductive Diagnostic where
  | error (fault : SyntaxFault) (location : Location)
  | onlyDefaultCase (location : Location)
deriving DecidableEq, Repr

namespace Diagnostic

def severity : Diagnostic → Text
  | error .. => "error"
  | onlyDefaultCase _ => "warning"

def message : Diagnostic → Text
  | error fault _ => fault.message
  | onlyDefaultCase _ => "Switch statement with only a default case"

def location : Diagnostic → Location
  | error _ location => location
  | onlyDefaultCase location => location

end Diagnostic

end ContractAsm.Ir

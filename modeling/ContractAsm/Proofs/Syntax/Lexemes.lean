import ContractAsm.Proofs.Lexical.Decomposition
import ContractAsm.Proofs.Syntax.Grammar

/-!
# Trees and their lexemes

What is left of a tree without its locations, the lexemes that it is written with, and
which trees can be written at all: in these every name is an identifier, every literal is
spelled as its kind demands, types are written in the typed dialect alone, and no node
stands that has no text of its own.
-/

namespace ContractAsm

/-! ## Names and literals -/

/-- A name that is scanned as one identifier. -/
structure IsName (name : Text) : Prop where
  word : ∃ first rest, name.units = first :: rest ∧ Token.startsWord first = true
    ∧ ∀ unit ∈ rest, Token.continuesWord unit = true
  free : Keyword.ofText? name = none

def isName (name : Text) : Bool :=
  match name.units with
  | [] => false
  | first :: rest =>
      Token.startsWord first && rest.all Token.continuesWord && (Keyword.ofText? name).isNone

theorem isName_iff {name : Text} : isName name = true ↔ IsName name := by
  obtain ⟨units⟩ := name
  cases units with
  | nil =>
    constructor
    · intro valid
      contradiction
    · intro valid
      obtain ⟨first, rest, split, -⟩ := valid.word
      contradiction
  | cons first rest =>
    simp only [isName, Bool.and_eq_true, List.all_eq_true, Option.isNone_iff_eq_none]
    constructor
    · rintro ⟨⟨starts, continues⟩, free⟩
      exact ⟨⟨first, rest, rfl, starts, continues⟩, free⟩
    · rintro ⟨⟨_, _, ⟨⟩, starts, continues⟩, free⟩
      exact ⟨⟨starts, continues⟩, free⟩

instance (name : Text) : Decidable (IsName name) := decidable_of_iff _ isName_iff

/-- The value of a literal is spelled as its kind demands, on a single line. -/
def Literal.Kind.Spells : Literal.Kind → Text → Prop
  | .number, value => Token.Spells (.number value) value.units
  | .string, value => Token.IsBody value.units ∧ CodeUnit.newline ∉ value.units
  | .bool, value => value = "true" ∨ value = "false"

def Literal.Kind.lexeme : Literal.Kind → Text → Lexeme
  | .number, value => .number value
  | .string, value => .string value
  | .bool, value => .ofWord value

namespace Ir

/-- A type is a name in the typed dialect and empty in the untyped one. -/
def Dialect.Types (dialect : Dialect) : Option Text → Prop
  | none => False
  | some type => if dialect.typed then IsName type else type = .empty

def typeLexemes : Option Text → List Lexeme
  | none => []
  | some type => if type.isEmpty then [] else [.punctuation .colon, .identifier type]

def behindCommas (parts : List (List Lexeme)) : List Lexeme :=
  parts.flatMap (.punctuation .comma :: ·)

def separated : List (List Lexeme) → List Lexeme
  | [] => []
  | first :: rest => first ++ behindCommas rest

def nameLexemes (names : List TypedName) : List Lexeme :=
  separated (names.map fun declared => .identifier declared.name :: typeLexemes declared.type)

def resultLexemes (names : List TypedName) : List Lexeme :=
  if names.isEmpty then [] else .punctuation .arrow :: nameLexemes names

def literalLexemes (literal : Literal) : List Lexeme :=
  literal.kind.lexeme literal.value :: typeLexemes literal.type

def LiteralReadable (dialect : Dialect) (literal : Literal) : Prop :=
  literal.kind.Spells literal.value ∧ dialect.Types literal.type

def NamesReadable (dialect : Dialect) (names : List TypedName) : Prop :=
  ∀ declared ∈ names, IsName declared.name ∧ dialect.Types declared.type

/-! ## Expressions -/

mutual

def Expression.withoutLocations : Expression → Expression
  | .literal literal => .literal { literal with location := none }
  | .identifier name _ => .identifier name none
  | .functionCall name arguments _ => .functionCall name (withoutLocationsEach arguments) none
  | .unrecognised node => .unrecognised node

def withoutLocationsEach : List Expression → List Expression
  | [] => []
  | expression :: rest => expression.withoutLocations :: withoutLocationsEach rest

end

mutual

/-- The lexemes of an expression; an unrecognised node has none. -/
def Expression.lexemes : Expression → List Lexeme
  | .literal literal => literalLexemes literal
  | .identifier name _ => [.identifier name]
  | .functionCall name arguments _ =>
      .identifier name :: .punctuation .openParen ::
        (separated (lexemesEach arguments) ++ [.punctuation .closeParen])
  | .unrecognised _ => []

def lexemesEach : List Expression → List (List Lexeme)
  | [] => []
  | expression :: rest => expression.lexemes :: lexemesEach rest

end

mutual

def Expression.Readable (dialect : Dialect) : Expression → Prop
  | .literal literal => LiteralReadable dialect literal
  | .identifier name _ => IsName name
  | .functionCall name arguments _ => IsName name ∧ ReadableEach dialect arguments
  | .unrecognised _ => False

def ReadableEach (dialect : Dialect) : List Expression → Prop
  | [] => True
  | expression :: rest => expression.Readable dialect ∧ ReadableEach dialect rest

end

/-! ## Statements -/

mutual

/-- A statement without the locations of its nodes. What inline assembly holds is kept. -/
def Statement.withoutLocations : Statement → Statement
  | .expression expression => .expression expression.withoutLocations
  | .variableDeclaration names value _ =>
      .variableDeclaration names (value.map Expression.withoutLocations) none
  | .assignment names value _ => .assignment names value.withoutLocations none
  | .functionDefinition name parameters results body _ =>
      .functionDefinition name parameters results body.withoutLocations none
  | .case case => .case case.withoutLocations
  | .switch expression cases _ =>
      .switch expression.withoutLocations (casesWithoutLocations cases) none
  | .ifThen condition body _ => .ifThen condition.withoutLocations body.withoutLocations none
  | .forLoop pre condition post body _ =>
      .forLoop pre.withoutLocations condition.withoutLocations post.withoutLocations
        body.withoutLocations none
  | .breakLoop _ => .breakLoop none
  | .continueLoop _ => .continueLoop none
  | .block block => .block block.withoutLocations
  | .inlineAssembly operations _ => .inlineAssembly operations none
  | .unrecognised node => .unrecognised node

def Case.withoutLocations : Case → Case
  | .mk value body _ => .mk (value.map Expression.withoutLocations) body.withoutLocations none
  | .other statement => .other statement.withoutLocations

def Block.withoutLocations : Block → Block
  | .mk statements _ kind => .mk (statementsWithoutLocations statements) none kind

def statementsWithoutLocations : List Statement → List Statement
  | [] => []
  | statement :: rest => statement.withoutLocations :: statementsWithoutLocations rest

def casesWithoutLocations : List Case → List Case
  | [] => []
  | case :: rest => case.withoutLocations :: casesWithoutLocations rest

end

mutual

/-- The lexemes of a statement; a node that is never read has none. -/
def Statement.lexemes : Statement → List Lexeme
  | .expression expression => expression.lexemes
  | .variableDeclaration names none _ => .keyword .letWord :: nameLexemes names
  | .variableDeclaration names (some value) _ =>
      .keyword .letWord :: (nameLexemes names ++ .punctuation .assign :: value.lexemes)
  | .assignment names value _ =>
      separated (names.map fun name => [.identifier name]) ++ .punctuation .assign :: value.lexemes
  | .functionDefinition name parameters results body _ =>
      .keyword .functionWord :: .identifier name :: .punctuation .openParen ::
        (nameLexemes parameters ++ .punctuation .closeParen :: (resultLexemes results ++ body.lexemes))
  | .case case => case.lexemes
  | .switch expression cases _ => .keyword .switchWord :: (expression.lexemes ++ casesLexemes cases)
  | .ifThen condition body _ => .keyword .ifWord :: (condition.lexemes ++ body.lexemes)
  | .forLoop pre condition post body _ =>
      .keyword .forWord :: (pre.lexemes ++ (condition.lexemes ++ (post.lexemes ++ body.lexemes)))
  | .breakLoop _ => [.keyword .breakWord]
  | .continueLoop _ => [.keyword .continueWord]
  | .block block => block.lexemes
  | .inlineAssembly _ _ => []
  | .unrecognised _ => []

def Case.lexemes : Case → List Lexeme
  | .mk none body _ => .keyword .defaultWord :: body.lexemes
  | .mk (some value) body _ => .keyword .caseWord :: (value.lexemes ++ body.lexemes)
  | .other statement => statement.lexemes

def Block.lexemes : Block → List Lexeme
  | .mk statements _ _ =>
      .punctuation .openBrace :: (statementsLexemes statements ++ [.punctuation .closeBrace])

def statementsLexemes : List Statement → List Lexeme
  | [] => []
  | statement :: rest => statement.lexemes ++ statementsLexemes rest

def casesLexemes : List Case → List Lexeme
  | [] => []
  | case :: rest => case.lexemes ++ casesLexemes rest

end

mutual

/-- A statement that has a text of its own: an expression that stands as a statement is a
call, a switch has a case or a default, the default comes last, and something is declared
and assigned. -/
def Statement.Readable (dialect : Dialect) : Statement → Prop
  | .expression (.functionCall name arguments location) =>
      (Expression.functionCall name arguments location).Readable dialect
  | .expression _ => False
  | .variableDeclaration names none _ => names ≠ [] ∧ NamesReadable dialect names
  | .variableDeclaration names (some value) _ =>
      names ≠ [] ∧ NamesReadable dialect names ∧ value.Readable dialect
  | .assignment names value _ => names ≠ [] ∧ (∀ name ∈ names, IsName name) ∧ value.Readable dialect
  | .functionDefinition name parameters results body _ =>
      IsName name ∧ NamesReadable dialect parameters ∧ NamesReadable dialect results ∧
        body.Readable dialect
  | .switch expression cases _ =>
      expression.Readable dialect ∧ cases ≠ [] ∧ CasesReadable dialect cases
  | .ifThen condition body _ => condition.Readable dialect ∧ body.Readable dialect
  | .forLoop pre condition post body _ =>
      pre.Readable dialect ∧ condition.Readable dialect ∧ post.Readable dialect ∧
        body.Readable dialect
  | .breakLoop _ => True
  | .continueLoop _ => True
  | .block block => block.Readable dialect
  | .case _ => False
  | .inlineAssembly _ _ => False
  | .unrecognised _ => False

def Block.Readable (dialect : Dialect) : Block → Prop
  | .mk statements _ kind => kind = some (.string "block") ∧ StatementsReadable dialect statements

def StatementsReadable (dialect : Dialect) : List Statement → Prop
  | [] => True
  | statement :: rest => statement.Readable dialect ∧ StatementsReadable dialect rest

/-- The cases of a switch: the default comes last, the others test for literals. -/
def CasesReadable (dialect : Dialect) : List Case → Prop
  | [] => True
  | .mk none body _ :: rest => body.Readable dialect ∧ rest = []
  | .mk (some (.literal value)) body _ :: rest =>
      LiteralReadable dialect value ∧ body.Readable dialect ∧ CasesReadable dialect rest
  | _ :: _ => False

end

end Ir

end ContractAsm

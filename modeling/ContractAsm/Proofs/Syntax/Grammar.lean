import ContractAsm.Ir.Parser

/-!
# The grammar of assembly text

A tree is derived from the tokens that it was written with. Each production is one
constructor, and the location of a node is the span of its tokens, so a derivation fixes
the whole tree. The side conditions stand in the productions: an expression that stands as
a statement is a call, a switch has a case or a default, the default comes last, and types
are written in the typed dialect alone. A reserved word is no identifier, since it is a
lexeme of its own.
-/

namespace ContractAsm.Ir.Grammar

/-- The offset at which the last of some tokens ends, or the given one if there is none. -/
def stopAfter (last : Nat) (tokens : List Token) : Nat :=
  tokens.foldl (fun _ token => token.stop) last

@[simp] theorem stopAfter_nil (last : Nat) : stopAfter last [] = last := rfl

@[simp] theorem stopAfter_cons (last : Nat) (token : Token) (rest : List Token) :
    stopAfter last (token :: rest) = stopAfter token.stop rest := rfl

@[simp] theorem stopAfter_append (last : Nat) (first second : List Token) :
    stopAfter last (first ++ second) = stopAfter (stopAfter last first) second :=
  List.foldl_append

/-- The range of a token and those that follow it. -/
def span (dialect : Dialect) (first : Token) (rest : List Token) : Location :=
  dialect.location first.start (stopAfter first.stop rest)

/-! ## Types and names -/

section

variable (dialect : Dialect)

/-- `":" Ident` in the typed dialect, nothing in the untyped one. -/
inductive DerivesType : List Token → Text → Prop where
  | typed {colon name : Token} {type : Text} (mode : dialect.typed = true)
      (colonMark : colon.lexeme = .punctuation .colon) (typeName : name.lexeme = .identifier type) :
      DerivesType [colon, name] type
  | untyped (mode : dialect.typed = false) : DerivesType [] .empty

/-- `Ident Type` -/
inductive DerivesTypedName : List Token → TypedName → Prop where
  | mk {name : Token} {text type : Text} {typing : List Token}
      (ident : name.lexeme = .identifier text) (typed : DerivesType dialect typing type) :
      DerivesTypedName (name :: typing) ⟨text, some type⟩

/-- `("," TypedName)*` -/
inductive DerivesFurtherTypedNames : List Token → List TypedName → Prop where
  | none : DerivesFurtherTypedNames [] []
  | some {comma : Token} {first rest : List Token} {declared : TypedName} {others : List TypedName}
      (commaMark : comma.lexeme = .punctuation .comma) (head : DerivesTypedName dialect first declared)
      (tail : DerivesFurtherTypedNames rest others) :
      DerivesFurtherTypedNames (comma :: (first ++ rest)) (declared :: others)

/-- `TypedName ("," TypedName)*` -/
inductive DerivesTypedNames : List Token → List TypedName → Prop where
  | mk {first rest : List Token} {declared : TypedName} {others : List TypedName}
      (head : DerivesTypedName dialect first declared)
      (tail : DerivesFurtherTypedNames dialect rest others) :
      DerivesTypedNames (first ++ rest) (declared :: others)

/-- `("," Ident)*` -/
inductive DerivesFurtherNames : List Token → List Text → Prop where
  | none : DerivesFurtherNames [] []
  | some {comma name : Token} {rest : List Token} {text : Text} {others : List Text}
      (commaMark : comma.lexeme = .punctuation .comma) (ident : name.lexeme = .identifier text)
      (tail : DerivesFurtherNames rest others) :
      DerivesFurtherNames (comma :: name :: rest) (text :: others)

/-- `TypedNames?` between the parentheses of a function. -/
inductive DerivesParameters : List Token → List TypedName → Prop where
  | none : DerivesParameters [] []
  | some {tokens : List Token} {names : List TypedName} (list : DerivesTypedNames dialect tokens names) :
      DerivesParameters tokens names

/-- `("->" TypedNames)?` -/
inductive DerivesResults : List Token → List TypedName → Prop where
  | none : DerivesResults [] []
  | some {arrow : Token} {tokens : List Token} {names : List TypedName}
      (arrowMark : arrow.lexeme = .punctuation .arrow) (list : DerivesTypedNames dialect tokens names) :
      DerivesResults (arrow :: tokens) names

/-! ## Expressions -/

/-- `(Number | String | "true" | "false") Type` -/
inductive DerivesLiteral : List Token → Literal → Prop where
  | mk {token : Token} {typing : List Token} {kind : Literal.Kind} {value type : Text}
      (lexeme : Parser.literalOf? token.lexeme = some (kind, value))
      (typed : DerivesType dialect typing type) :
      DerivesLiteral (token :: typing)
        ⟨kind, value, some type, some (span dialect token typing)⟩

mutual

/-- `Literal | Ident | Ident "(" Arguments ")"` -/
inductive DerivesExpression : List Token → Expression → Prop where
  | literal {tokens : List Token} {value : Literal} (derived : DerivesLiteral dialect tokens value) :
      DerivesExpression tokens (.literal value)
  | identifier {token : Token} {name : Text} (ident : token.lexeme = .identifier name) :
      DerivesExpression [token] (.identifier name (some (span dialect token [])))
  | call {token opening closing : Token} {name : Text} {inner : List Token}
      {arguments : List Expression}
      (ident : token.lexeme = .identifier name)
      (openMark : opening.lexeme = .punctuation .openParen)
      (list : DerivesArguments inner arguments)
      (closeMark : closing.lexeme = .punctuation .closeParen) :
      DerivesExpression (token :: opening :: (inner ++ [closing]))
        (.functionCall name arguments (some (span dialect token (opening :: (inner ++ [closing])))))

/-- `(Expression ("," Expression)*)?` -/
inductive DerivesArguments : List Token → List Expression → Prop where
  | none : DerivesArguments [] []
  | some {first rest : List Token} {expression : Expression} {others : List Expression}
      (head : DerivesExpression first expression) (tail : DerivesFurtherArguments rest others) :
      DerivesArguments (first ++ rest) (expression :: others)

/-- `("," Expression)*` -/
inductive DerivesFurtherArguments : List Token → List Expression → Prop where
  | none : DerivesFurtherArguments [] []
  | some {comma : Token} {first rest : List Token} {expression : Expression}
      {others : List Expression}
      (commaMark : comma.lexeme = .punctuation .comma) (head : DerivesExpression first expression)
      (tail : DerivesFurtherArguments rest others) :
      DerivesFurtherArguments (comma :: (first ++ rest)) (expression :: others)

end

/-! ## Statements -/

mutual

/-- `"{" Statement* "}"` -/
inductive DerivesBlock : List Token → Block → Prop where
  | braces {opening closing : Token} {inner : List Token} {statements : List Statement}
      (openMark : opening.lexeme = .punctuation .openBrace)
      (list : DerivesStatements inner statements)
      (closeMark : closing.lexeme = .punctuation .closeBrace) :
      DerivesBlock (opening :: (inner ++ [closing]))
        (.mk statements (some (span dialect opening (inner ++ [closing]))))

/-- `Statement*` -/
inductive DerivesStatements : List Token → List Statement → Prop where
  | none : DerivesStatements [] []
  | some {first rest : List Token} {statement : Statement} {others : List Statement}
      (head : DerivesStatement first statement) (tail : DerivesStatements rest others) :
      DerivesStatements (first ++ rest) (statement :: others)

inductive DerivesStatement : List Token → Statement → Prop where
  /-- `Block` -/
  | block {tokens : List Token} {block : Block} (derived : DerivesBlock tokens block) :
      DerivesStatement tokens (.block block)
  /-- `"function" Ident "(" Parameters ")" Results Block` -/
  | functionDefinition {word ident opening closing : Token} {name : Text}
      {inner returned tokens : List Token} {parameters results : List TypedName} {body : Block}
      (keyword : word.lexeme = .keyword .functionWord)
      (named : ident.lexeme = .identifier name)
      (openMark : opening.lexeme = .punctuation .openParen)
      (taken : DerivesParameters dialect inner parameters)
      (closeMark : closing.lexeme = .punctuation .closeParen)
      (given : DerivesResults dialect returned results)
      (derived : DerivesBlock tokens body) :
      DerivesStatement (word :: ident :: opening :: (inner ++ closing :: (returned ++ tokens)))
        (.functionDefinition name parameters results body
          (some (span dialect word (ident :: opening :: (inner ++ closing :: (returned ++ tokens))))))
  /-- `"let" TypedNames` -/
  | declaration {word : Token} {tokens : List Token} {names : List TypedName}
      (keyword : word.lexeme = .keyword .letWord)
      (list : DerivesTypedNames dialect tokens names) :
      DerivesStatement (word :: tokens)
        (.variableDeclaration names none (some (span dialect word tokens)))
  /-- `"let" TypedNames ":=" Expression` -/
  | initialisation {word mark : Token} {tokens right : List Token} {names : List TypedName}
      {value : Expression}
      (keyword : word.lexeme = .keyword .letWord)
      (list : DerivesTypedNames dialect tokens names)
      (assignMark : mark.lexeme = .punctuation .assign)
      (derived : DerivesExpression dialect right value) :
      DerivesStatement (word :: (tokens ++ mark :: right))
        (.variableDeclaration names (some value)
          (some (span dialect word (tokens ++ mark :: right))))
  /-- `Ident ("," Ident)* ":=" Expression` -/
  | assignment {first mark : Token} {name : Text} {tokens right : List Token} {names : List Text}
      {value : Expression}
      (ident : first.lexeme = .identifier name)
      (list : DerivesFurtherNames tokens names)
      (assignMark : mark.lexeme = .punctuation .assign)
      (derived : DerivesExpression dialect right value) :
      DerivesStatement (first :: (tokens ++ mark :: right))
        (.assignment (name :: names) value (some (span dialect first (tokens ++ mark :: right))))
  /-- `Ident "(" Arguments ")"` -/
  | call {tokens : List Token} {name : Text} {arguments : List Expression}
      {location : Option Location}
      (derived : DerivesExpression dialect tokens (.functionCall name arguments location)) :
      DerivesStatement tokens (.expression (.functionCall name arguments location))
  /-- `"switch" Expression Cases`, where there is a case or a default -/
  | switch {word : Token} {tokens inner : List Token} {value : Expression} {cases : List Case}
      (keyword : word.lexeme = .keyword .switchWord)
      (derived : DerivesExpression dialect tokens value)
      (list : DerivesCases inner cases) (some : cases ≠ []) :
      DerivesStatement (word :: (tokens ++ inner))
        (.switch value cases (Option.some (span dialect word (tokens ++ inner))))
  /-- `"if" Expression Block` -/
  | ifThen {word : Token} {tokens inner : List Token} {condition : Expression} {body : Block}
      (keyword : word.lexeme = .keyword .ifWord)
      (tested : DerivesExpression dialect tokens condition)
      (derived : DerivesBlock inner body) :
      DerivesStatement (word :: (tokens ++ inner))
        (.ifThen condition body (some (span dialect word (tokens ++ inner))))
  /-- `"for" Block Expression Block Block` -/
  | forLoop {word : Token} {before tokens behind inner : List Token} {condition : Expression}
      {pre post body : Block}
      (keyword : word.lexeme = .keyword .forWord)
      (prepared : DerivesBlock before pre)
      (tested : DerivesExpression dialect tokens condition)
      (advanced : DerivesBlock behind post)
      (derived : DerivesBlock inner body) :
      DerivesStatement (word :: (before ++ (tokens ++ (behind ++ inner))))
        (.forLoop pre condition post body
          (some (span dialect word (before ++ (tokens ++ (behind ++ inner))))))
  | breakLoop {word : Token} (keyword : word.lexeme = .keyword .breakWord) :
      DerivesStatement [word] (.breakLoop (some (span dialect word [])))
  | continueLoop {word : Token} (keyword : word.lexeme = .keyword .continueWord) :
      DerivesStatement [word] (.continueLoop (some (span dialect word [])))

/-- `("case" Literal Block)* ("default" Block)?` -/
inductive DerivesCases : List Token → List Case → Prop where
  | none : DerivesCases [] []
  | default {word : Token} {tokens : List Token} {body : Block}
      (keyword : word.lexeme = .keyword .defaultWord) (derived : DerivesBlock tokens body) :
      DerivesCases (word :: tokens) [.mk none body (some (span dialect word tokens))]
  | case {word : Token} {tokens inner rest : List Token} {value : Literal} {body : Block}
      {others : List Case}
      (keyword : word.lexeme = .keyword .caseWord)
      (tested : DerivesLiteral dialect tokens value)
      (derived : DerivesBlock inner body) (tail : DerivesCases rest others) :
      DerivesCases (word :: (tokens ++ (inner ++ rest)))
        (.mk (some (.literal value)) body (some (span dialect word (tokens ++ inner))) :: others)

end

end

end ContractAsm.Ir.Grammar

namespace ContractAsm.Ir

/-! ## Switches with a default alone -/

def defaultOnly (cases : List Case) (location : Option Location) : List Location :=
  match cases with
  | [only] => if only.isDefault then location.toList else []
  | _ => []

mutual

/-- The places of the switches that have a default alone, each after those inside it. -/
def Statement.defaultOnlySwitches : Statement → List Location
  | .expression _ => []
  | .variableDeclaration _ _ _ => []
  | .assignment _ _ _ => []
  | .functionDefinition _ _ _ body _ => body.defaultOnlySwitches
  | .case case => case.defaultOnlySwitches
  | .switch _ cases location => casesDefaultOnlySwitches cases ++ defaultOnly cases location
  | .ifThen _ body _ => body.defaultOnlySwitches
  | .forLoop pre _ post body _ =>
      pre.defaultOnlySwitches ++ (post.defaultOnlySwitches ++ body.defaultOnlySwitches)
  | .breakLoop _ => []
  | .continueLoop _ => []
  | .block block => block.defaultOnlySwitches
  | .inlineAssembly _ _ => []
  | .unrecognised _ => []

def Case.defaultOnlySwitches : Case → List Location
  | .mk _ body _ => body.defaultOnlySwitches
  | .other statement => statement.defaultOnlySwitches

def Block.defaultOnlySwitches : Block → List Location
  | .mk statements _ _ => statementsDefaultOnlySwitches statements

def statementsDefaultOnlySwitches : List Statement → List Location
  | [] => []
  | statement :: rest => statement.defaultOnlySwitches ++ statementsDefaultOnlySwitches rest

def casesDefaultOnlySwitches : List Case → List Location
  | [] => []
  | case :: rest => case.defaultOnlySwitches ++ casesDefaultOnlySwitches rest

end

end ContractAsm.Ir

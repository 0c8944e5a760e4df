import ContractAsm.Proofs.Lexical.Slices
import ContractAsm.Proofs.Syntax.Acceptance

/-!
# Reading a part of a text

A statement is read from its own tokens, whatever stands around it: put between braces, the slice
of the text at its location is a block of that statement alone, with every location moved by the
same distance. The grammar is followed twice, once to find the tokens of a part among those of
the tree, and once to move them.
-/

namespace ContractAsm

/-! ## Moved locations -/

def Json.Number.moved (distance : Int) : Json.Number → Json.Number
  | .finite value => .finite (value + distance)
  | .infinite negative => .infinite negative

def Location.moved (distance : Int) (location : Location) : Location :=
  ⟨location.start.moved distance, location.stop.moved distance, location.source⟩

theorem Json.Number.moved_ofNat {distance : Int} {value other : Nat} (apart : (other : Int) = value + distance) :
    (Json.Number.ofNat value).moved distance = .ofNat other := by
  have same : ((other : Int) : Rat) = ((value + distance : Int) : Rat) := congrArg _ apart
  push_cast at same
  rw [Json.Number.ofNat, Json.Number.ofNat, Json.Number.moved, same]

def Literal.moved (distance : Int) (literal : Literal) : Literal :=
  { literal with location := literal.location.map (·.moved distance) }

namespace Ir

mutual

def Expression.moved (distance : Int) : Expression → Expression
  | .literal literal => .literal (literal.moved distance)
  | .identifier name location => .identifier name (location.map (·.moved distance))
  | .functionCall name arguments location =>
      .functionCall name (movedEach distance arguments) (location.map (·.moved distance))
  | .unrecognised node => .unrecognised node

def movedEach (distance : Int) : List Expression → List Expression
  | [] => []
  | expression :: rest => expression.moved distance :: movedEach distance rest

end

mutual

/-- The statement with every location in it moved. What inline assembly holds is kept; no text is
read as inline assembly. -/
def Statement.moved (distance : Int) : Statement → Statement
  | .expression expression => .expression (expression.moved distance)
  | .variableDeclaration names value location =>
      .variableDeclaration names (value.map (·.moved distance)) (location.map (·.moved distance))
  | .assignment names value location =>
      .assignment names (value.moved distance) (location.map (·.moved distance))
  | .functionDefinition name parameters results body location =>
      .functionDefinition name parameters results (body.moved distance)
        (location.map (·.moved distance))
  | .case case => .case (case.moved distance)
  | .switch expression cases location =>
      .switch (expression.moved distance) (casesMoved distance cases) (location.map (·.moved distance))
  | .ifThen condition body location =>
      .ifThen (condition.moved distance) (body.moved distance) (location.map (·.moved distance))
  | .forLoop pre condition post body location =>
      .forLoop (pre.moved distance) (condition.moved distance) (post.moved distance)
        (body.moved distance) (location.map (·.moved distance))
  | .breakLoop location => .breakLoop (location.map (·.moved distance))
  | .continueLoop location => .continueLoop (location.map (·.moved distance))
  | .block block => .block (block.moved distance)
  | .inlineAssembly operations location =>
      .inlineAssembly operations (location.map (·.moved distance))
  | .unrecognised node => .unrecognised node

def Case.moved (distance : Int) : Case → Case
  | .mk value body location =>
      .mk (value.map (·.moved distance)) (body.moved distance) (location.map (·.moved distance))
  | .other statement => .other (statement.moved distance)

def Block.moved (distance : Int) : Block → Block
  | .mk statements location kind =>
      .mk (statementsMoved distance statements) (location.map (·.moved distance)) kind

def statementsMoved (distance : Int) : List Statement → List Statement
  | [] => []
  | statement :: rest => statement.moved distance :: statementsMoved distance rest

def casesMoved (distance : Int) : List Case → List Case
  | [] => []
  | case :: rest => case.moved distance :: casesMoved distance rest

end

/-! ## Parts -/

def Expression.location : Expression → Option Location
  | .literal value => value.location
  | .identifier _ location => location
  | .functionCall _ _ location => location
  | .unrecognised _ => none

def Statement.location : Statement → Option Location
  | .expression value => value.location
  | .variableDeclaration _ _ location => location
  | .assignment _ _ location => location
  | .functionDefinition _ _ _ _ location => location
  | .case (.mk _ _ location) => location
  | .case (.other _) => none
  | .switch _ _ location => location
  | .ifThen _ _ location => location
  | .forLoop _ _ _ _ location => location
  | .breakLoop location => location
  | .continueLoop location => location
  | .block inner => inner.location
  | .inlineAssembly _ location => location
  | .unrecognised _ => none

mutual

/-- The statement and every statement and block in it, however deep. -/
def Statement.parts : Statement → List Statement
  | .functionDefinition name parameters results body location =>
      .functionDefinition name parameters results body location :: body.parts
  | .case case => .case case :: case.parts
  | .switch expression cases location => .switch expression cases location :: casesParts cases
  | .ifThen condition body location => .ifThen condition body location :: body.parts
  | .forLoop pre condition post body location =>
      .forLoop pre condition post body location :: (pre.parts ++ (post.parts ++ body.parts))
  | .block block => block.parts
  | other => [other]

def Case.parts : Case → List Statement
  | .mk _ body _ => body.parts
  | .other statement => statement.parts

def Block.parts : Block → List Statement
  | .mk statements location kind => .block (.mk statements location kind) :: statementsParts statements

def statementsParts : List Statement → List Statement
  | [] => []
  | statement :: rest => statement.parts ++ statementsParts rest

def casesParts : List Case → List Statement
  | [] => []
  | case :: rest => case.parts ++ casesParts rest

end

open Grammar
open Token (Moved)
open List (Forall₂)

variable {dialect : Dialect} {distance : Int}

/-! ## Moved derivations -/

theorem moved_span {first other : Token} {rest others : List Token} (here : Moved distance first other)
    (behind : Forall₂ (Moved distance) rest others) :
    (span dialect first rest).moved distance = span dialect other others := by
  have stop := Moved.stopAfter behind here.stop
  rw [span, span, Dialect.location, Dialect.location, Location.ofOffsets, Location.ofOffsets, Location.moved,
    Json.Number.moved_ofNat here.start, Json.Number.moved_ofNat stop]

theorem Grammar.DerivesType.moved {tokens others : List Token} {type : Text}
    (derived : DerivesType dialect tokens type) (moved : Forall₂ (Moved distance) tokens others) :
    DerivesType dialect others type := by
  cases derived with
  | typed mode colonMark typeName =>
    cases moved with
    | cons colon moved =>
      cases moved with
      | cons name moved =>
        cases moved
        exact .typed mode (colon.lexeme.trans colonMark) (name.lexeme.trans typeName)
  | untyped mode =>
    cases moved
    exact .untyped mode

theorem Grammar.DerivesTypedName.moved {tokens others : List Token} {declared : TypedName}
    (derived : DerivesTypedName dialect tokens declared) (moved : Forall₂ (Moved distance) tokens others) :
    DerivesTypedName dialect others declared := by
  cases derived with
  | mk ident typed =>
    cases moved with
    | cons name moved => exact .mk (name.lexeme.trans ident) (typed.moved moved)

theorem Grammar.DerivesFurtherTypedNames.moved {tokens others : List Token} {names : List TypedName}
    (derived : DerivesFurtherTypedNames dialect tokens names)
    (moved : Forall₂ (Moved distance) tokens others) : DerivesFurtherTypedNames dialect others names := by
  induction derived generalizing others with
  | none =>
    cases moved
    exact .none
  | some commaMark head _ ih =>
    cases moved with
    | cons comma moved =>
      obtain ⟨_, _, rfl, first, rest⟩ := Moved.of_split moved
      exact .some (comma.lexeme.trans commaMark) (head.moved first) (ih rest)

theorem Grammar.DerivesTypedNames.moved {tokens others : List Token} {names : List TypedName}
    (derived : DerivesTypedNames dialect tokens names) (moved : Forall₂ (Moved distance) tokens others) :
    DerivesTypedNames dialect others names := by
  cases derived with
  | mk head tail =>
    obtain ⟨_, _, rfl, first, rest⟩ := Moved.of_split moved
    exact .mk (head.moved first) (tail.moved rest)

theorem Grammar.DerivesFurtherNames.moved {tokens others : List Token} {names : List Text}
    (derived : DerivesFurtherNames tokens names) (moved : Forall₂ (Moved distance) tokens others) :
    DerivesFurtherNames others names := by
  induction derived generalizing others with
  | none =>
    cases moved
    exact .none
  | some commaMark ident _ ih =>
    cases moved with
    | cons comma moved =>
      cases moved with
      | cons name moved =>
        exact .some (comma.lexeme.trans commaMark) (name.lexeme.trans ident) (ih moved)

theorem Grammar.DerivesParameters.moved {tokens others : List Token} {names : List TypedName}
    (derived : DerivesParameters dialect tokens names) (moved : Forall₂ (Moved distance) tokens others) :
    DerivesParameters dialect others names := by
  cases derived with
  | none =>
    cases moved
    exact .none
  | some list => exact .some (list.moved moved)

theorem Grammar.DerivesResults.moved {tokens others : List Token} {names : List TypedName}
    (derived : DerivesResults dialect tokens names) (moved : Forall₂ (Moved distance) tokens others) :
    DerivesResults dialect others names := by
  cases derived with
  | none =>
    cases moved
    exact .none
  | some arrowMark list =>
    cases moved with
    | cons arrow moved => exact .some (arrow.lexeme.trans arrowMark) (list.moved moved)

theorem Grammar.DerivesLiteral.moved {tokens others : List Token} {value : Literal}
    (derived : DerivesLiteral dialect tokens value) (moved : Forall₂ (Moved distance) tokens others) :
    DerivesLiteral dialect others (value.moved distance) := by
  cases derived with
  | mk lexeme typed =>
    cases moved with
    | cons token moved =>
      rw [Literal.moved, Option.map_some, moved_span token moved]
      exact .mk (token.lexeme ▸ lexeme) (typed.moved moved)

mutual

theorem Grammar.DerivesExpression.moved {tokens others : List Token} {expression : Expression}
    (derived : DerivesExpression dialect tokens expression)
    (moved : Forall₂ (Moved distance) tokens others) :
    DerivesExpression dialect others (expression.moved distance) := by
  cases derived with
  | literal derived => exact .literal (derived.moved moved)
  | identifier ident =>
    cases moved with
    | cons token moved =>
      rw [Expression.moved, Option.map_some, moved_span token moved]
      cases moved
      exact .identifier (token.lexeme.trans ident)
  | call ident openMark list closeMark =>
    cases moved with
    | cons token moved =>
      rw [Expression.moved, Option.map_some, moved_span token moved]
      cases moved with
      | cons opening moved =>
        obtain ⟨_, _, rfl, inner, ending⟩ := Moved.of_split moved
        cases ending with
        | cons closing nothing =>
          cases nothing
          exact .call (token.lexeme.trans ident) (opening.lexeme.trans openMark)
            (DerivesArguments.moved list inner) (closing.lexeme.trans closeMark)

theorem Grammar.DerivesArguments.moved {tokens others : List Token} {arguments : List Expression}
    (derived : DerivesArguments dialect tokens arguments) (moved : Forall₂ (Moved distance) tokens others) :
    DerivesArguments dialect others (movedEach distance arguments) := by
  cases derived with
  | none =>
    cases moved
    exact .none
  | some head tail =>
    obtain ⟨_, _, rfl, first, rest⟩ := Moved.of_split moved
    exact .some (DerivesExpression.moved head first) (DerivesFurtherArguments.moved tail rest)

theorem Grammar.DerivesFurtherArguments.moved {tokens others : List Token} {arguments : List Expression}
    (derived : DerivesFurtherArguments dialect tokens arguments)
    (moved : Forall₂ (Moved distance) tokens others) :
    DerivesFurtherArguments dialect others (movedEach distance arguments) := by
  cases derived with
  | none =>
    cases moved
    exact .none
  | some commaMark head tail =>
    cases moved with
    | cons comma moved =>
      obtain ⟨_, _, rfl, first, rest⟩ := Moved.of_split moved
      exact .some (comma.lexeme.trans commaMark) (DerivesExpression.moved head first)
        (DerivesFurtherArguments.moved tail rest)

end

theorem casesMoved_ne_nil {cases : List Case} (some : cases ≠ []) : casesMoved distance cases ≠ [] := by
  cases cases with
  | nil => contradiction
  | cons => exact List.cons_ne_nil _ _

mutual

theorem Grammar.DerivesBlock.moved {tokens others : List Token} {block : Block}
    (derived : DerivesBlock dialect tokens block) (moved : Forall₂ (Moved distance) tokens others) :
    DerivesBlock dialect others (block.moved distance) := by
  cases derived with
  | braces openMark list closeMark =>
    cases moved with
    | cons opening moved =>
      rw [Block.moved, Option.map_some, moved_span opening moved]
      obtain ⟨_, _, rfl, inner, ending⟩ := Moved.of_split moved
      cases ending with
      | cons closing nothing =>
        cases nothing
        exact .braces (opening.lexeme.trans openMark) (DerivesStatements.moved list inner)
          (closing.lexeme.trans closeMark)

theorem Grammar.DerivesStatements.moved {tokens others : List Token} {statements : List Statement}
    (derived : DerivesStatements dialect tokens statements)
    (moved : Forall₂ (Moved distance) tokens others) :
    DerivesStatements dialect others (statementsMoved distance statements) := by
  cases derived with
  | none =>
    cases moved
    exact .none
  | some head tail =>
    obtain ⟨_, _, rfl, first, rest⟩ := Moved.of_split moved
    exact .some (DerivesStatement.moved head first) (DerivesStatements.moved tail rest)

theorem Grammar.DerivesStatement.moved {tokens others : List Token} {statement : Statement}
    (derived : DerivesStatement dialect tokens statement)
    (moved : Forall₂ (Moved distance) tokens others) :
    DerivesStatement dialect others (statement.moved distance) := by
  cases derived with
  | block derived => exact .block (DerivesBlock.moved derived moved)
  | functionDefinition keyword named openMark taken closeMark given derived =>
    cases moved with
    | cons word moved =>
      rw [Statement.moved, Option.map_some, moved_span word moved]
      cases moved with
      | cons ident moved =>
        cases moved with
        | cons opening moved =>
          obtain ⟨_, _, rfl, inner, further⟩ := Moved.of_split moved
          cases further with
          | cons closing behind =>
            obtain ⟨_, _, rfl, returned, body⟩ := Moved.of_split behind
            exact .functionDefinition (word.lexeme.trans keyword) (ident.lexeme.trans named)
              (opening.lexeme.trans openMark) (taken.moved inner) (closing.lexeme.trans closeMark)
              (given.moved returned) (DerivesBlock.moved derived body)
  | declaration keyword list =>
    cases moved with
    | cons word moved =>
      rw [Statement.moved, Option.map_some, moved_span word moved]
      exact .declaration (word.lexeme.trans keyword) (list.moved moved)
  | initialisation keyword list assignMark derived =>
    cases moved with
    | cons word moved =>
      rw [Statement.moved, Option.map_some, Option.map_some, moved_span word moved]
      obtain ⟨_, _, rfl, names, further⟩ := Moved.of_split moved
      cases further with
      | cons mark right =>
        exact .initialisation (word.lexeme.trans keyword) (list.moved names)
          (mark.lexeme.trans assignMark) (derived.moved right)
  | assignment ident list assignMark derived =>
    cases moved with
    | cons first moved =>
      rw [Statement.moved, Option.map_some, moved_span first moved]
      obtain ⟨_, _, rfl, names, further⟩ := Moved.of_split moved
      cases further with
      | cons mark right =>
        exact .assignment (first.lexeme.trans ident) (list.moved names) (mark.lexeme.trans assignMark)
          (derived.moved right)
  | call derived =>
    have call := derived.moved moved
    rw [Expression.moved] at call
    exact .call call
  | «switch» keyword derived list some =>
    cases moved with
    | cons word moved =>
      rw [Statement.moved, Option.map_some, moved_span word moved]
      obtain ⟨_, _, rfl, value, inner⟩ := Moved.of_split moved
      exact .switch (word.lexeme.trans keyword) (derived.moved value) (DerivesCases.moved list inner)
        (casesMoved_ne_nil some)
  | ifThen keyword tested derived =>
    cases moved with
    | cons word moved =>
      rw [Statement.moved, Option.map_some, moved_span word moved]
      obtain ⟨_, _, rfl, condition, inner⟩ := Moved.of_split moved
      exact .ifThen (word.lexeme.trans keyword) (tested.moved condition) (DerivesBlock.moved derived inner)
  | forLoop keyword prepared tested advanced derived =>
    cases moved with
    | cons word moved =>
      rw [Statement.moved, Option.map_some, moved_span word moved]
      obtain ⟨_, _, rfl, before, further⟩ := Moved.of_split moved
      obtain ⟨_, _, rfl, condition, last⟩ := Moved.of_split further
      obtain ⟨_, _, rfl, behind, inner⟩ := Moved.of_split last
      exact .forLoop (word.lexeme.trans keyword) (DerivesBlock.moved prepared before)
        (tested.moved condition) (DerivesBlock.moved advanced behind) (DerivesBlock.moved derived inner)
  | breakLoop keyword =>
    cases moved with
    | cons word moved =>
      rw [Statement.moved, Option.map_some, moved_span word moved]
      cases moved
      exact .breakLoop (word.lexeme.trans keyword)
  | continueLoop keyword =>
    cases moved with
    | cons word moved =>
      rw [Statement.moved, Option.map_some, moved_span word moved]
      cases moved
      exact .continueLoop (word.lexeme.trans keyword)

theorem Grammar.DerivesCases.moved {tokens others : List Token} {cases : List Case}
    (derived : DerivesCases dialect tokens cases) (moved : Forall₂ (Moved distance) tokens others) :
    DerivesCases dialect others (casesMoved distance cases) := by
  cases derived with
  | none =>
    cases moved
    exact .none
  | default keyword derived =>
    cases moved with
    | cons word moved =>
      rw [casesMoved, Case.moved, Option.map_some, moved_span word moved]
      exact .default (word.lexeme.trans keyword) (DerivesBlock.moved derived moved)
  | case keyword tested derived tail =>
    cases moved with
    | cons word moved =>
      obtain ⟨_, _, rfl, value, further⟩ := Moved.of_split moved
      obtain ⟨_, _, rfl, inner, rest⟩ := Moved.of_split further
      rw [casesMoved, Case.moved, Option.map_some, Option.map_some,
        moved_span word (List.rel_append value inner)]
      exact .case (word.lexeme.trans keyword) (tested.moved value) (DerivesBlock.moved derived inner)
        (DerivesCases.moved tail rest)

end

/-! ## Derived parts -/

/-- Whether the statement is derived from tokens that stand side by side among the given ones. -/
def StandsIn (dialect : Dialect) (tokens : List Token) (part : Statement) : Prop :=
  ∃ inner, inner <:+: tokens ∧ DerivesStatement dialect inner part

theorem StandsIn.widen {tokens others : List Token} {part : Statement}
    (written : StandsIn dialect tokens part) (inside : tokens <:+: others) : StandsIn dialect others part := by
  obtain ⟨inner, within, derived⟩ := written
  exact ⟨inner, within.trans inside, derived⟩

theorem Grammar.DerivesStatement.standsIn {tokens : List Token} {statement : Statement}
    (derived : DerivesStatement dialect tokens statement) : StandsIn dialect tokens statement :=
  ⟨tokens, List.infix_rfl, derived⟩

mutual

theorem Grammar.DerivesBlock.parts {tokens : List Token} {block : Block} {part : Statement}
    (derived : DerivesBlock dialect tokens block) (inside : part ∈ block.parts) :
    StandsIn dialect tokens part := by
  cases derived with
  | @braces opening closing inner statements openMark list closeMark =>
    rw [Block.parts, List.mem_cons] at inside
    cases inside with
    | inl same =>
      rw [same]
      exact (DerivesStatement.block (.braces openMark list closeMark)).standsIn
    | inr inside => exact (DerivesStatements.parts list inside).widen ⟨[opening], [closing], by simp⟩

theorem Grammar.DerivesStatements.parts {tokens : List Token} {statements : List Statement}
    {part : Statement} (derived : DerivesStatements dialect tokens statements)
    (inside : part ∈ statementsParts statements) : StandsIn dialect tokens part := by
  cases derived with
  | none => cases inside
  | some head tail =>
    rw [statementsParts, List.mem_append] at inside
    cases inside with
    | inl inside => exact (DerivesStatement.parts head inside).widen (List.prefix_append _ _).isInfix
    | inr inside => exact (DerivesStatements.parts tail inside).widen (List.suffix_append _ _).isInfix

theorem Grammar.DerivesStatement.parts {tokens : List Token} {statement part : Statement}
    (derived : DerivesStatement dialect tokens statement) (inside : part ∈ statement.parts) :
    StandsIn dialect tokens part := by
  by_cases same : part = statement
  · rw [same]
    exact derived.standsIn
  cases derived with
  | block derived => exact DerivesBlock.parts derived inside
  | @functionDefinition word ident opening closing _ inner returned tokens _ _ _ _ _ _ _ _ _ derived =>
    have behind := (List.mem_cons.mp inside).resolve_left same
    refine (DerivesBlock.parts derived behind).widen (List.IsSuffix.isInfix ?_)
    exact ⟨word :: ident :: opening :: (inner ++ closing :: returned), by simp⟩
  | @«switch» word tokens inner _ _ _ _ list =>
    have behind := (List.mem_cons.mp inside).resolve_left same
    exact (DerivesCases.parts list behind).widen (List.IsSuffix.isInfix ⟨word :: tokens, by simp⟩)
  | @ifThen word tokens inner _ _ _ _ derived =>
    have behind := (List.mem_cons.mp inside).resolve_left same
    exact (DerivesBlock.parts derived behind).widen (List.IsSuffix.isInfix ⟨word :: tokens, by simp⟩)
  | @forLoop word before tokens behind inner _ _ _ _ _ prepared _ advanced derived =>
    have further := (List.mem_cons.mp inside).resolve_left same
    rw [List.mem_append, List.mem_append] at further
    obtain inPre | inPost | inBody := further
    · exact (DerivesBlock.parts prepared inPre).widen ⟨[word], tokens ++ (behind ++ inner), by simp⟩
    · exact (DerivesBlock.parts advanced inPost).widen ⟨word :: (before ++ tokens), inner, by simp⟩
    · exact (DerivesBlock.parts derived inBody).widen
        (List.IsSuffix.isInfix ⟨word :: (before ++ (tokens ++ behind)), by simp⟩)
  | declaration | initialisation | assignment | call | breakLoop | continueLoop =>
    exact absurd (List.mem_singleton.mp inside) same

theorem Grammar.DerivesCases.parts {tokens : List Token} {cases : List Case} {part : Statement}
    (derived : DerivesCases dialect tokens cases) (inside : part ∈ casesParts cases) :
    StandsIn dialect tokens part := by
  cases derived with
  | none => cases inside
  | default _ derived =>
    rw [casesParts, casesParts, List.append_nil] at inside
    exact (DerivesBlock.parts derived inside).widen (List.suffix_cons _ _).isInfix
  | @case word tokens inner rest _ _ _ _ _ derived tail =>
    rw [casesParts, List.mem_append] at inside
    cases inside with
    | inl inside => exact (DerivesBlock.parts derived inside).widen ⟨word :: tokens, rest, by simp⟩
    | inr inside =>
      exact (DerivesCases.parts tail inside).widen
        (List.IsSuffix.isInfix ⟨word :: (tokens ++ inner), by simp⟩)

end

theorem Grammar.DerivesStatement.location {tokens : List Token} {statement : Statement}
    (derived : DerivesStatement dialect tokens statement) :
    ∃ first rest, tokens = first :: rest ∧ statement.location = some (span dialect first rest) := by
  cases derived with
  | block derived => cases derived with | braces => exact ⟨_, _, rfl, rfl⟩
  | call derived => cases derived with | call => exact ⟨_, _, rfl, rfl⟩
  | _ => exact ⟨_, _, rfl, rfl⟩

/-! ## Slices that are read again -/

variable {source : Text} {tree : Block} {part : Statement}

/-- The slice of a text at a part of its tree, in braces, is read as a block of that part alone,
with all locations in it moved by one distance. -/
theorem parse_slice (read : (parse source dialect).block = some tree) (inside : part ∈ tree.parts) :
    ∃ start stop : Nat, start < stop ∧ stop ≤ source.length
      ∧ part.location = some (dialect.location start stop)
      ∧ (parse (source.slice start stop).braced dialect).block
        = some (.mk [part.moved (1 - start)] (some (dialect.location 0 (stop - start + 2)))) := by
  obtain ⟨tokens, scanned, derived⟩ := derives_of_parse read
  obtain ⟨inner, ⟨front, behind, split⟩, written⟩ := derived.parts inside
  obtain ⟨first, rest, rfl, place⟩ := written.location
  rw [← split] at scanned
  obtain ⟨opening, others, closing, again, openMark, closeMark, start, stop, some, bounded, moved⟩ :=
    Token.scan_braced scanned
  refine ⟨first.start, stopAfter first.stop rest, some, bounded, place, ?_⟩
  have single : DerivesStatements dialect others [part.moved (1 - first.start)] := by
    have list := DerivesStatements.some (written.moved moved) .none
    rwa [List.append_nil] at list
  have block := DerivesBlock.braces openMark single closeMark
  have whole : span dialect opening (others ++ [closing])
      = dialect.location 0 (stopAfter first.stop rest - first.start + 2) := by
    rw [span, start, stopAfter_append, stopAfter_cons, stopAfter_nil, stop]
  rw [parse_derived again block, whole]

/-- A loop whose body is an assignment, with comments in it and behind it. -/
def loopingSource : Text := "\x7b for \x7b\x7d i \x7b\x7d \x7b i/*,*/, j := // sum\n f(i) /**/ \x7d \x7d"

theorem parse_slice_looping :
    ∃ tree part, (parse loopingSource ⟨false, "a"⟩).block = some tree ∧ part ∈ tree.parts
      ∧ part.kind = "assignment"
      ∧ ∃ start stop : Nat, start < stop ∧ stop ≤ loopingSource.length
        ∧ part.location = some (.ofOffsets start stop "a")
        ∧ (parse (loopingSource.slice start stop).braced ⟨false, "a"⟩).block
          = some (.mk [part.moved (1 - start)] (some (.ofOffsets 0 (stop - start + 2) "a"))) := by
  have found : (((parse loopingSource ⟨false, "a"⟩).block.bind (·.parts[5]?)).map (·.kind))
      = some ("assignment" : Text) := by decide +kernel
  obtain ⟨part, here, kind⟩ := Option.map_eq_some_iff.mp found
  obtain ⟨tree, read, at5⟩ := Option.bind_eq_some_iff.mp here
  have inside : part ∈ tree.parts := List.mem_of_getElem? at5
  exact ⟨tree, part, read, inside, kind, parse_slice read inside⟩

end Ir

end ContractAsm

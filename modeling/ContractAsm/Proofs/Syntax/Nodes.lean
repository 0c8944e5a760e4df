import ContractAsm.Proofs.Lexical.Ranges
import ContractAsm.Proofs.Syntax.Slices
import ContractAsm.Proofs.Syntax.Spelling
import Mathlib.Logic.Relation

/-!
# Where nodes stand

A node stands from the start of its first token up to the end of its last one. Its children are
derived from parts of its tokens, one part behind the other, so their locations stand in its own in
their order.
-/

namespace ContractAsm.Ir

open Grammar
open Token (AreInTurn AreNamed)
open List (Forall₂)

/-! ## Nodes -/

/-- A node of a tree. A call or a block that stands as a statement is one node with its
statement. -/
inductive Node where
  | expression (expression : Expression)
  | statement (statement : Statement)
  | case (case : Case)
  | block (block : Block)

def Expression.children : Expression → List Node
  | .functionCall _ arguments _ => arguments.map .expression
  | .literal _ | .identifier _ _ | .unrecognised _ => []

def Block.children (block : Block) : List Node := block.statements.map .statement

mutual

def Statement.children : Statement → List Node
  | .expression expression => expression.children
  | .variableDeclaration _ value _ => value.toList.map .expression
  | .assignment _ value _ => [.expression value]
  | .functionDefinition _ _ _ body _ => [.block body]
  | .case case => case.children
  | .switch expression cases _ => .expression expression :: cases.map .case
  | .ifThen condition body _ => [.expression condition, .block body]
  | .forLoop pre condition post body _ => [.block pre, .expression condition, .block post, .block body]
  | .block block => block.children
  | .breakLoop _ | .continueLoop _ | .inlineAssembly _ _ | .unrecognised _ => []

def Case.children : Case → List Node
  | .mk value body _ => value.toList.map .expression ++ [.block body]
  | .other statement => statement.children

end

def Case.location : Case → Option Location
  | .mk _ _ location => location
  | .other statement => statement.location

namespace Node

def children : Node → List Node
  | expression node => node.children
  | statement node => node.children
  | case node => node.children
  | block node => node.children

def location : Node → Option Location
  | expression node => node.location
  | statement node => node.location
  | case node => node.location
  | block node => node.location

def lexemes : Node → List Lexeme
  | expression node => node.lexemes
  | statement node => node.lexemes
  | case node => node.lexemes
  | block node => node.lexemes

/-- Whether a node is another one or stands inside it, however deep. -/
def IsIn (node root : Node) : Prop := Relation.ReflTransGen (fun parent child => child ∈ parent.children) root node

/-- The tokens that a node is derived from. -/
def Derives (dialect : Dialect) (tokens : List Token) : Node → Prop
  | expression node => DerivesExpression dialect tokens node
  | statement node => DerivesStatement dialect tokens node
  | case node => DerivesCases dialect tokens [node]
  | block node => DerivesBlock dialect tokens node

variable {dialect : Dialect} {tokens : List Token} {node : Node}

/-! ## The span of a node -/

theorem Derives.lexemes (derived : node.Derives dialect tokens) (named : AreNamed tokens) :
    tokens.map Token.lexeme = node.lexemes := by
  cases node with
  | expression node => exact DerivesExpression.lexemes derived named
  | statement node => exact DerivesStatement.lexemes derived named
  | case node =>
    have written := DerivesCases.lexemes derived named
    rwa [casesLexemes, casesLexemes, List.append_nil] at written
  | block node => exact DerivesBlock.lexemes derived named

theorem Derives.location (derived : node.Derives dialect tokens) :
    ∃ first rest, tokens = first :: rest ∧ node.location = some (span dialect first rest) := by
  cases node with
  | expression node =>
    cases derived with
    | literal derived => cases derived with | mk => exact ⟨_, _, rfl, rfl⟩
    | identifier | call => exact ⟨_, _, rfl, rfl⟩
  | statement node => exact DerivesStatement.location derived
  | case node =>
    cases derived with
    | default => exact ⟨_, _, rfl, rfl⟩
    | case keyword tested derived tail =>
      cases tail
      rw [List.append_nil]
      exact ⟨_, _, rfl, rfl⟩
  | block node => cases derived with | braces => exact ⟨_, _, rfl, rfl⟩

/-! ## Nodes in a row -/

/-- The nodes are derived from parts of the tokens, each part behind the one before it. -/
inductive InRow (dialect : Dialect) : List Token → List Node → Prop where
  | none (tokens : List Token) : InRow dialect tokens []
  | some (gap : List Token) {part rest : List Token} {node : Node} {nodes : List Node}
      (derived : node.Derives dialect part) (tail : InRow dialect rest nodes) :
      InRow dialect (gap ++ (part ++ rest)) (node :: nodes)

section

variable {others : List Token} {nodes further : List Node}

theorem InRow.behind (row : InRow dialect tokens nodes) (front : List Token) :
    InRow dialect (front ++ tokens) nodes := by
  cases row with
  | none => exact .none _
  | some gap derived tail =>
    rw [← List.append_assoc]
    exact .some (front ++ gap) derived tail

theorem InRow.append (row : InRow dialect tokens nodes) (behind : InRow dialect others further) :
    InRow dialect (tokens ++ others) (nodes ++ further) := by
  induction row with
  | none tokens => exact behind.behind tokens
  | some gap derived tail ih =>
    rw [List.append_assoc, List.append_assoc]
    exact .some gap derived ih

theorem InRow.widen (row : InRow dialect tokens nodes) (others : List Token) :
    InRow dialect (tokens ++ others) nodes := by
  rw [← List.append_nil nodes]
  exact row.append (.none others)

theorem Derives.single (derived : node.Derives dialect tokens) : InRow dialect tokens [node] := by
  have row := InRow.some [] derived (.none [])
  rwa [List.nil_append, List.append_nil] at row

theorem InRow.mem (row : InRow dialect tokens nodes) (member : node ∈ nodes) :
    ∃ part, part <:+: tokens ∧ node.Derives dialect part := by
  induction row with
  | none => cases member
  | @some gap part rest first nodes derived tail ih =>
    cases List.mem_cons.mp member with
    | inl same =>
      rw [same]
      exact ⟨part, ⟨gap, rest, List.append_assoc _ _ _⟩, derived⟩
    | inr member =>
      obtain ⟨inner, inside, derived⟩ := ih member
      exact ⟨inner, inside.trans (List.IsSuffix.isInfix ⟨gap ++ part, List.append_assoc _ _ _⟩), derived⟩

end

theorem inRow_furtherArguments {arguments : List Expression}
    (derived : DerivesFurtherArguments dialect tokens arguments) :
    InRow dialect tokens (arguments.map .expression) := by
  induction arguments generalizing tokens with
  | nil => exact .none _
  | cons argument arguments ih =>
    cases derived with
    | @some comma _ _ _ _ _ head tail => exact .some [comma] head (ih tail)

theorem inRow_arguments {arguments : List Expression} (derived : DerivesArguments dialect tokens arguments) :
    InRow dialect tokens (arguments.map .expression) := by
  cases derived with
  | none => exact .none _
  | some head tail => exact .some [] head (inRow_furtherArguments tail)

theorem inRow_statements {statements : List Statement} (derived : DerivesStatements dialect tokens statements) :
    InRow dialect tokens (statements.map .statement) := by
  induction statements generalizing tokens with
  | nil => exact .none _
  | cons statement statements ih =>
    cases derived with
    | some head tail => exact .some [] head (ih tail)

theorem inRow_cases {cases : List Case} (derived : DerivesCases dialect tokens cases) :
    InRow dialect tokens (cases.map .case) := by
  induction cases generalizing tokens with
  | nil => exact .none _
  | cons case cases ih =>
    cases derived with
    | default keyword derived => exact @Derives.single dialect _ (.case _) (.default keyword derived)
    | @case word tokens inner rest value body _ keyword tested derived tail =>
      have alone := DerivesCases.case keyword tested derived .none
      rw [List.append_nil] at alone
      have row := @InRow.some dialect [] _ _ (.case _) _ alone (ih tail)
      rwa [List.nil_append, List.cons_append, List.append_assoc] at row

/-! ## Children -/

theorem inRow_children_block {block : Block} (derived : DerivesBlock dialect tokens block) :
    InRow dialect tokens block.children := by
  cases derived with
  | @braces opening closing inner statements openMark list closeMark =>
    exact ((inRow_statements list).widen [closing]).behind [opening]

theorem inRow_children_expression {expression : Expression} (derived : DerivesExpression dialect tokens expression) :
    InRow dialect tokens expression.children := by
  cases derived with
  | literal | identifier => exact .none _
  | @call token opening closing name inner arguments ident openMark list closeMark =>
    exact ((inRow_arguments list).widen [closing]).behind [token, opening]

theorem Derives.expression {expression : Expression} (derived : DerivesExpression dialect tokens expression) :
    Derives dialect tokens (.expression expression) := derived

theorem Derives.block {block : Block} (derived : DerivesBlock dialect tokens block) :
    Derives dialect tokens (.block block) := derived

theorem inRow_children_statement {statement : Statement} (derived : DerivesStatement dialect tokens statement) :
    InRow dialect tokens statement.children := by
  cases derived with
  | block derived => exact inRow_children_block derived
  | call derived => exact inRow_children_expression derived
  | declaration | breakLoop | continueLoop => exact .none _
  | @functionDefinition word ident opening closing _ inner returned tokens _ _ _ _ _ _ _ _ _ derived =>
    have row := (Derives.block derived).single.behind (word :: ident :: opening :: (inner ++ closing :: returned))
    simpa [Statement.children] using row
  | @initialisation word mark names right _ _ _ _ _ derived =>
    have row := (Derives.expression derived).single.behind (word :: (names ++ [mark]))
    simpa [Statement.children] using row
  | @assignment first mark _ names right _ _ _ _ _ derived =>
    have row := (Derives.expression derived).single.behind (first :: (names ++ [mark]))
    simpa [Statement.children] using row
  | @«switch» word _ _ _ _ _ derived list _ =>
    exact ((Derives.expression derived).single.append (inRow_cases list)).behind [word]
  | @ifThen word _ _ _ _ _ tested derived =>
    exact ((Derives.expression tested).single.append (Derives.block derived).single).behind [word]
  | @forLoop word _ _ _ _ _ _ _ _ _ prepared tested advanced derived =>
    have parts := (Derives.block advanced).single.append (Derives.block derived).single
    exact ((Derives.block prepared).single.append ((Derives.expression tested).single.append parts)).behind [word]

theorem inRow_children_case {case : Case} (derived : DerivesCases dialect tokens [case]) :
    InRow dialect tokens case.children := by
  cases derived with
  | @default word _ _ _ derived => exact (Derives.block derived).single.behind [word]
  | @case word _ _ _ value _ _ _ tested derived tail =>
    cases tail
    rw [List.append_nil]
    exact ((Derives.expression (.literal tested)).single.append (Derives.block derived).single).behind [word]

theorem Derives.children (derived : node.Derives dialect tokens) : InRow dialect tokens node.children := by
  cases node with
  | expression node => exact inRow_children_expression derived
  | statement node => exact inRow_children_statement derived
  | case node => exact inRow_children_case derived
  | block node => exact inRow_children_block derived

/-- Every node of a tree is derived from tokens that stand side by side among those of the tree. -/
theorem Derives.inside {root : Node} (derived : root.Derives dialect tokens) (inside : node.IsIn root) :
    ∃ inner, inner <:+: tokens ∧ node.Derives dialect inner := by
  induction inside with
  | refl => exact ⟨tokens, List.infix_rfl, derived⟩
  | tail _ child ih =>
    obtain ⟨outer, within, derived⟩ := ih
    obtain ⟨inner, part, derived⟩ := derived.children.mem child
    exact ⟨inner, part.trans within, derived⟩

end Node

/-! ## Locations -/

/-- The ranges stand between two offsets, each in front of the next, and none is empty. -/
structure AreRanges (start stop : Nat) (ranges : List (Nat × Nat)) : Prop where
  inside : ∀ range ∈ ranges, start ≤ range.1 ∧ range.1 < range.2 ∧ range.2 ≤ stop
  apart : ranges.Pairwise fun first second => first.2 ≤ second.1

def Node.AreAt (dialect : Dialect) : List Node → List (Nat × Nat) → Prop :=
  Forall₂ fun node range => node.location = some (dialect.location range.1 range.2)

/-- The node is derived from the tokens and written with them, and it is located from the start of
the first of them up to the end of the last. -/
structure Node.Spans (dialect : Dialect) (node : Node) (tokens : List Token) (first last : Token) : Prop where
  derived : node.Derives dialect tokens
  written : tokens.map Token.lexeme = node.lexemes
  opens : tokens.head? = some first
  closes : tokens.getLast? = some last
  located : node.location = some (dialect.location first.start last.stop)
  nonempty : first.start < last.stop

/-- The node spans some of the tokens that stand side by side, and its children are located one behind
the other in between. -/
def Node.IsPlaced (dialect : Dialect) (tokens : List Token) (node : Node) : Prop :=
  ∃ inner first last, inner <:+: tokens ∧ node.Spans dialect inner first last
    ∧ ∃ ranges, AreAt dialect node.children ranges ∧ AreRanges first.start last.stop ranges

theorem stopAfter_getLast? {first last : Token} {rest : List Token} (closes : (first :: rest).getLast? = some last) :
    stopAfter first.stop rest = last.stop := by
  induction rest generalizing first with
  | nil =>
    cases closes
    rfl
  | cons second rest ih => exact ih (by rwa [List.getLast?_cons_cons] at closes)

variable {dialect : Dialect} {tokens : List Token} {node : Node}

theorem Node.Derives.spans (derived : node.Derives dialect tokens) (inTurn : AreInTurn tokens)
    (named : AreNamed tokens) : ∃ first last, node.Spans dialect tokens first last := by
  have written := derived.lexemes named
  obtain ⟨first, rest, rfl, located⟩ := derived.location
  obtain ⟨last, closes⟩ := Option.isSome_iff_exists.mp (List.getLast?_isSome.mpr (List.cons_ne_nil first rest))
  rw [span, stopAfter_getLast? closes] at located
  have nonempty := inTurn.nonempty first List.mem_cons_self
  have inside := inTurn.between rfl closes first List.mem_cons_self
  exact ⟨first, last, derived, written, rfl, closes, located, Nat.lt_of_lt_of_le nonempty inside.2⟩

theorem Node.InRow.ranges {nodes : List Node} (row : InRow dialect tokens nodes) (inTurn : AreInTurn tokens)
    (named : AreNamed tokens) {start stop : Nat}
    (within : ∀ token ∈ tokens, start ≤ token.start ∧ token.stop ≤ stop) :
    ∃ ranges, AreAt dialect nodes ranges ∧ AreRanges start stop ranges := by
  induction row generalizing start with
  | none => exact ⟨[], .nil, nofun, .nil⟩
  | @some gap part rest node nodes derived tail ih =>
    have suffixes : (part ++ rest).Sublist (gap ++ (part ++ rest)) := List.sublist_append_right _ _
    have partIn := (List.sublist_append_left part rest).trans suffixes
    have restIn := (List.sublist_append_right part rest).trans suffixes
    obtain ⟨first, last, spans⟩ := derived.spans (inTurn.sublist partIn) (named.subset partIn.subset)
    have opens := List.mem_of_head? spans.opens
    have closes := List.mem_of_getLast? spans.closes
    -- What is behind the part starts behind the end of its last token.
    have behind : ∀ token ∈ rest, last.stop ≤ token.start ∧ token.stop ≤ stop := by
      intro token member
      have apart := (List.pairwise_append.mp (inTurn.sublist suffixes).apart).2.2
      exact ⟨apart last closes token member, (within token (restIn.subset member)).2⟩
    obtain ⟨ranges, located, inside, apart⟩ := ih (inTurn.sublist restIn) (named.subset restIn.subset) behind
    have lower := (within first (partIn.subset opens)).1
    have upper := (within last (partIn.subset closes)).2
    refine ⟨(first.start, last.stop) :: ranges, .cons spans.located located, ?_, ?_⟩
    · refine List.forall_mem_cons.mpr ⟨⟨lower, spans.nonempty, upper⟩, fun range member => ?_⟩
      obtain ⟨after, nonempty, within⟩ := inside range member
      have begun := spans.nonempty
      omega
    · exact .cons (fun range member => (inside range member).1) apart

/-- The nodes of a tree are placed among the tokens that it is derived from. -/
theorem Node.Derives.isPlaced {root : Node} (derived : root.Derives dialect tokens) (inTurn : AreInTurn tokens)
    (named : AreNamed tokens) (inside : node.IsIn root) : node.IsPlaced dialect tokens := by
  obtain ⟨inner, within, derived⟩ := derived.inside inside
  have innerInTurn := inTurn.sublist within.sublist
  have innerNamed := named.subset within.subset
  obtain ⟨first, last, spans⟩ := derived.spans innerInTurn innerNamed
  have between := innerInTurn.between spans.opens spans.closes
  exact ⟨inner, first, last, within, spans, derived.children.ranges innerInTurn innerNamed between⟩

variable {source : Text} {tree : Block}

/-- Every node of a tree that is read is located from the start of its first token up to the end of
its last one, around its children, and the children are located in turn. -/
theorem parse_located (read : (parse source dialect).block = some tree) :
    ∃ tokens, Token.scan source = .ok tokens ∧ tokens.map Token.lexeme = tree.lexemes
      ∧ ∀ node : Node, node.IsIn (.block tree) → node.IsPlaced dialect tokens := by
  obtain ⟨tokens, scanned, derived⟩ := derives_of_parse read
  have splits := Token.scan_iff.mp scanned
  refine ⟨tokens, scanned, DerivesBlock.lexemes derived splits.areNamed, fun node inside => ?_⟩
  exact (Node.Derives.block derived).isPlaced splits.areInTurn splits.areNamed inside

def switchingSource : Text :=
  "\x7b switch f(x, 1:u256) case 2:u256 \x7b let y:u256 \x7d default \x7b\x7d \x7d"

theorem parse_located_switching :
    ∃ tree, (parse switchingSource ⟨true, "a"⟩).block = some tree
      ∧ (tree.children.flatMap Node.children).map Node.location
        = [some (.ofOffsets 9 21 "a"), some (.ofOffsets 22 48 "a"), some (.ofOffsets 49 59 "a")]
      ∧ ∃ tokens, Token.scan switchingSource = .ok tokens ∧ tokens.map Token.lexeme = tree.lexemes
        ∧ ∀ node : Node, node.IsIn (.block tree) → node.IsPlaced ⟨true, "a"⟩ tokens := by
  have found : ((parse switchingSource ⟨true, "a"⟩).block.map fun tree =>
      (tree.children.flatMap Node.children).map Node.location)
        = some [some (.ofOffsets 9 21 "a"), some (.ofOffsets 22 48 "a"), some (.ofOffsets 49 59 "a")] := by
    decide +kernel
  obtain ⟨tree, read, parts⟩ := Option.map_eq_some_iff.mp found
  exact ⟨tree, read, parts, parse_located read⟩

end ContractAsm.Ir

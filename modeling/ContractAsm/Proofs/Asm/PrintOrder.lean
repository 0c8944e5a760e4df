import ContractAsm.Asm.Printer
import ContractAsm.Proofs.Asm.Obstacles

/-!
# Statements in the order of the text

`Block.within` lists exactly the statements that stand in a block, however deep, and it lists
them in the order in which they are printed: in the text of the block every statement starts
behind the start of the one before it.
-/

namespace ContractAsm

theorem Layout.suffix_write (layout : Layout) (depth : Nat) (after : List CodeUnit) :
    after <:+ layout.write depth after := by
  induction layout generalizing depth after with
  | words text =>
    obtain ⟨units⟩ := text
    simp only [write]
    induction units with
    | nil => exact List.suffix_rfl
    | cons unit rest ih =>
      refine ih.trans ?_
      rw [List.foldr_cons, put]
      split
      · unfold breakLine
        split
        · exact List.suffix_cons _ _
        · exact (List.suffix_append _ _).trans (List.suffix_cons _ _)
      · exact List.suffix_cons _ _
  | append first second ihFirst ihSecond => exact (ihSecond depth after).trans (ihFirst depth _)
  | nested inner ih => exact ih (depth + 1) after

namespace Asm

/-! ## Standing in a block -/

inductive Statement.Holds : Statement → Block → Prop where
  | block (inner : Block) : Holds (.block inner) inner
  | functionBody {name : Text} {parameters results : List TypedName} {location : Option Location}
      (body : Block) : Holds (.functionDefinition name parameters results body location) body
  | ifBody {condition : Expression} {location : Option Location} (body : Block) :
      Holds (.ifThen condition body location) body
  | caseBody {expression : Expression} {cases : List Case} {location : Option Location}
      {value : Option Expression} {body : Block} (member : .mk value body ∈ cases) :
      Holds (.switch expression cases location) body
  | forPre {condition : Expression} {post body : Block} {location : Option Location} (pre : Block) :
      Holds (.forLoop pre condition post body location) pre
  | forPost {condition : Expression} {pre body : Block} {location : Option Location} (post : Block) :
      Holds (.forLoop pre condition post body location) post
  | forBody {condition : Expression} {pre post : Block} {location : Option Location} (body : Block) :
      Holds (.forLoop pre condition post body location) body

/-- The statement stands in the block, or in one that a statement of it holds, however deep. -/
inductive Block.Has (statement : Statement) : Block → Prop where
  | here {block : Block} (member : statement ∈ block.statements) : Has statement block
  | inside {block inner : Block} {outer : Statement} (member : outer ∈ block.statements)
      (holds : outer.Holds inner) (deeper : inner.Has statement) : Has statement block

mutual

theorem Statement.holds_of_mem_inside {statement other : Statement} (member : other ∈ statement.inside) :
    ∃ inner, statement.Holds inner ∧ inner.Has other := by
  cases statement with
  | functionDefinition _ _ _ body => exact ⟨body, .functionBody body, Block.has_of_mem_within member⟩
  | ifThen _ body => exact ⟨body, .ifBody body, Block.has_of_mem_within member⟩
  | «switch» _ cases =>
    obtain ⟨value, body, case, has⟩ := case_of_mem_casesWithin member
    exact ⟨body, .caseBody case, has⟩
  | forLoop pre _ post body =>
    rw [Statement.inside, List.mem_append, List.mem_append] at member
    obtain member | member | member := member
    · exact ⟨pre, .forPre pre, Block.has_of_mem_within member⟩
    · exact ⟨post, .forPost post, Block.has_of_mem_within member⟩
    · exact ⟨body, .forBody body, Block.has_of_mem_within member⟩
  | block block => exact ⟨block, .block block, Block.has_of_mem_within member⟩
  | expression | assignment | variableDeclaration | legacy | unrecognised => contradiction

theorem Block.has_of_mem_within {block : Block} {other : Statement} (member : other ∈ block.within) :
    block.Has other := by
  cases block with
  | mk statements =>
    obtain here | ⟨outer, standing, inner, holds, has⟩ := standing_of_mem_statementsWithin member
    · exact .here here
    · exact .inside standing holds has

theorem standing_of_mem_statementsWithin {statements : List Statement} {other : Statement}
    (member : other ∈ statementsWithin statements) :
    other ∈ statements ∨ ∃ outer ∈ statements, ∃ inner, outer.Holds inner ∧ inner.Has other := by
  cases statements with
  | nil => contradiction
  | cons statement rest =>
    rw [statementsWithin, List.mem_cons, List.mem_append] at member
    obtain rfl | member | member := member
    · exact .inl List.mem_cons_self
    · exact .inr ⟨statement, List.mem_cons_self, Statement.holds_of_mem_inside member⟩
    · obtain here | ⟨outer, standing, held⟩ := standing_of_mem_statementsWithin member
      · exact .inl (List.mem_cons_of_mem _ here)
      · exact .inr ⟨outer, List.mem_cons_of_mem _ standing, held⟩

theorem case_of_mem_casesWithin {cases : List Case} {other : Statement}
    (member : other ∈ casesWithin cases) :
    ∃ value body, Case.mk value body ∈ cases ∧ body.Has other := by
  cases cases with
  | nil => contradiction
  | cons case rest =>
    cases case with
    | mk value body =>
      obtain member | member := List.mem_append.mp member
      · exact ⟨value, body, List.mem_cons_self, Block.has_of_mem_within member⟩
      · obtain ⟨value, body, standing, has⟩ := case_of_mem_casesWithin member
        exact ⟨value, body, List.mem_cons_of_mem _ standing, has⟩

end

theorem mem_casesWithin {cases : List Case} {value : Option Expression} {body : Block}
    {other : Statement} (standing : .mk value body ∈ cases) (member : other ∈ body.within) :
    other ∈ casesWithin cases := by
  induction cases with
  | nil => contradiction
  | cons case rest ih =>
    rw [casesWithin, List.mem_append]
    obtain rfl | standing := List.mem_cons.mp standing
    · exact .inl member
    · exact .inr (ih standing)

theorem Statement.Holds.mem_inside {outer : Statement} {inner : Block} {other : Statement}
    (holds : outer.Holds inner) (member : other ∈ inner.within) : other ∈ outer.inside := by
  cases holds with
  | block | functionBody | ifBody => exact member
  | caseBody standing => exact mem_casesWithin standing member
  | forPre => exact List.mem_append_left _ member
  | forPost => exact List.mem_append_right _ (List.mem_append_left _ member)
  | forBody => exact List.mem_append_right _ (List.mem_append_right _ member)

theorem mem_statementsWithin_of_mem {statements : List Statement} {other : Statement}
    (member : other ∈ statements) : other ∈ statementsWithin statements := by
  induction statements with
  | nil => contradiction
  | cons statement rest ih =>
    rw [statementsWithin, List.mem_cons, List.mem_append]
    obtain rfl | member := List.mem_cons.mp member
    · exact .inl rfl
    · exact .inr (.inr (ih member))

theorem mem_statementsWithin_of_inside {statements : List Statement} {outer other : Statement}
    (standing : outer ∈ statements) (member : other ∈ outer.inside) :
    other ∈ statementsWithin statements := by
  induction statements with
  | nil => contradiction
  | cons statement rest ih =>
    rw [statementsWithin, List.mem_cons, List.mem_append]
    obtain rfl | standing := List.mem_cons.mp standing
    · exact .inr (.inl member)
    · exact .inr (.inr (ih standing))

/-- Listed are exactly the statements that stand in a block. -/
theorem Block.mem_within_iff {block : Block} {statement : Statement} :
    statement ∈ block.within ↔ block.Has statement := by
  refine ⟨Block.has_of_mem_within, fun has => ?_⟩
  induction has with
  | @here block member =>
    cases block
    exact mem_statementsWithin_of_mem member
  | @inside block inner outer member holds _ ih =>
    cases block
    exact mem_statementsWithin_of_inside member (holds.mem_inside ih)

/-! ## Starting in turn -/

/-- The texts of the statements stand in the units, written at some depths with something behind
them, and each starts behind the start of the one before it. -/
inductive StartInTurn : List CodeUnit → List Statement → Prop where
  | nil (units : List CodeUnit) : StartInTurn units []
  | cons {before after : List CodeUnit} {statement : Statement} {rest : List Statement} {depth : Nat}
      (apart : before ≠ []) (tail : StartInTurn (statement.layout.write depth after) rest) :
      StartInTurn (before ++ statement.layout.write depth after) (statement :: rest)

theorem StartInTurn.behind {units after : List CodeUnit} {statements : List Statement}
    (inTurn : StartInTurn after statements) (suffix : after <:+ units) : StartInTurn units statements := by
  cases inTurn with
  | nil => exact .nil units
  | @cons before _ _ _ _ apart tail =>
    obtain ⟨front, rfl⟩ := suffix
    rw [← List.append_assoc]
    exact .cons (List.append_ne_nil_of_right_ne_nil front apart) tail

theorem StartInTurn.written {after : List CodeUnit} {statements : List Statement}
    (inTurn : StartInTurn after statements) (layout : Layout) (depth : Nat) :
    StartInTurn (layout.write depth after) statements := inTurn.behind (layout.suffix_write depth after)

theorem StartInTurn.line {statement : Statement} {depth : Nat} {after : List CodeUnit}
    {rest : List Statement} (inTurn : StartInTurn (statement.layout.write depth after) rest) :
    StartInTurn (Layout.write "\n" depth (statement.layout.write depth after)) (statement :: rest) := by
  show StartInTurn (Layout.breakLine depth _) _
  unfold Layout.breakLine
  split
  · exact @StartInTurn.cons [CodeUnit.newline] _ _ _ _ (List.cons_ne_nil _ _) inTurn
  · rw [← List.cons_append]
    exact .cons (List.cons_ne_nil _ _) inTurn

mutual

theorem Statement.startInTurn (statement : Statement) (depth : Nat) {after : List CodeUnit}
    {others : List Statement} (behind : StartInTurn after others) :
    StartInTurn (statement.layout.write depth after) (statement.inside ++ others) := by
  cases statement with
  | functionDefinition _ _ _ body => exact (Block.startInTurn body depth behind).written _ depth
  | ifThen _ body => exact (Block.startInTurn body depth behind).written _ depth
  | «switch» _ cases => exact (cases_startInTurn cases depth behind).written _ depth
  | forLoop pre condition post body =>
    have inBody := (Block.startInTurn body depth behind).written "\n" depth
    have inPost := ((Block.startInTurn post depth inBody).written " " depth).written condition.layout depth
    have inPre := (Block.startInTurn pre depth (inPost.written " " depth)).written "for " depth
    simp only [Statement.inside, List.append_assoc]
    exact inPre
  | block block => exact Block.startInTurn block depth behind
  | expression | assignment | variableDeclaration | legacy | unrecognised =>
    exact behind.written (Statement.layout _) depth

theorem Block.startInTurn (block : Block) (depth : Nat) {after : List CodeUnit}
    {others : List Statement} (behind : StartInTurn after others) :
    StartInTurn (block.layout.write depth after) (block.within ++ others) := by
  match block with
  | .mk [] _ _ => exact behind.written _ depth
  | .mk (statement :: rest) _ _ =>
    have lines := statements_startInTurn (statement :: rest) (depth + 1) (behind.written "\n\x7d" depth)
    exact lines.written "\x7b" depth

theorem statements_startInTurn (statements : List Statement) (depth : Nat) {after : List CodeUnit}
    {others : List Statement} (behind : StartInTurn after others) :
    StartInTurn (Layout.write ("\n" ++ Layout.join "\n" (statementLayouts statements)) depth after)
      (statementsWithin statements ++ others) := by
  match statements with
  | [] => exact behind.written _ depth
  | [statement] =>
    have inside := Statement.startInTurn statement depth behind
    simp only [statementsWithin, List.append_nil, List.cons_append]
    exact inside.line
  | statement :: second :: rest =>
    have further := statements_startInTurn (second :: rest) depth behind
    have inside := Statement.startInTurn statement depth further
    rw [statementsWithin, List.cons_append, List.append_assoc]
    exact inside.line

theorem cases_startInTurn (cases : List Case) (depth : Nat) {after : List CodeUnit}
    {others : List Statement} (behind : StartInTurn after others) :
    StartInTurn (Layout.write (Layout.join "\n" (caseLayouts cases)) depth after)
      (casesWithin cases ++ others) := by
  match cases with
  | [] => exact behind.written _ depth
  | [.mk value body] =>
    rw [casesWithin, casesWithin, List.append_nil]
    exact (Block.startInTurn body depth behind).written _ depth
  | .mk value body :: second :: rest =>
    have further := (cases_startInTurn (second :: rest) depth behind).written "\n" depth
    rw [casesWithin, List.append_assoc]
    exact (Block.startInTurn body depth further).written _ depth

end

/-- The statements of a block are printed in the order in which they are listed. -/
theorem Block.startInTurn_render (block : Block) : StartInTurn block.render.units block.within := by
  have inTurn := block.startInTurn 0 (.nil [])
  rwa [List.append_nil] at inTurn

end Asm

end ContractAsm

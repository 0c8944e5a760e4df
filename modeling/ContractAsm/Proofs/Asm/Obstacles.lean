import ContractAsm.Asm.Legacy
import ContractAsm.Proofs.Asm.Recognition

/-!
# Every obstacle in a block

The search for obstacles stops at the first one that it meets. `Block.obstacles` lists them
all, however deep, in the order in which the statements are printed; the search finds the
head of that list.
-/

namespace ContractAsm.Asm

/-! ## Statements however deep -/

mutual

/-- The statements of the blocks that a statement holds, each before those inside it. -/
def Statement.inside : Statement → List Statement
  | .functionDefinition _ _ _ body _ => body.within
  | .ifThen _ body _ => body.within
  | .switch _ cases _ => casesWithin cases
  | .forLoop pre _ post body _ => pre.within ++ (post.within ++ body.within)
  | .block block => block.within
  | .expression _ => []
  | .assignment _ _ _ => []
  | .variableDeclaration _ _ _ => []
  | .legacy _ _ _ => []
  | .unrecognised _ => []

def Case.within : Case → List Statement
  | .mk _ body => body.within

def Block.within : Block → List Statement
  | .mk statements _ _ => statementsWithin statements

def statementsWithin : List Statement → List Statement
  | [] => []
  | statement :: rest => statement :: (statement.inside ++ statementsWithin rest)

def casesWithin : List Case → List Statement
  | [] => []
  | case :: rest => case.within ++ casesWithin rest

end

/-! ## Obstacles -/

/-- The obstacle that a statement is itself; what it holds is not looked at. -/
def Statement.ownObstacle? : Statement → Option Obstacle
  | .legacy form _ location => some (.legacy form location)
  | .unrecognised _ => some .unrecognised
  | .expression (.unrecognised _) => some .unrecognised
  | _ => none

/-- The obstacles in a block in the order in which its statements are printed. -/
def Block.obstacles (block : Block) : List Obstacle := block.within.filterMap Statement.ownObstacle?

def firstObstacle? (statements : List Statement) : Option Obstacle :=
  (statements.filterMap Statement.ownObstacle?).head?

theorem firstObstacle?_append (first second : List Statement) :
    firstObstacle? (first ++ second) = (firstObstacle? first).or (firstObstacle? second) := by
  unfold firstObstacle?
  rw [List.filterMap_append, List.head?_append]

theorem firstObstacle?_cons (statement : Statement) (rest : List Statement) :
    firstObstacle? (statement :: rest) = statement.ownObstacle?.or (firstObstacle? rest) := by
  unfold firstObstacle?
  cases own : statement.ownObstacle? with
  | none =>
    rw [List.filterMap_cons_none own]
    rfl
  | some obstacle =>
    rw [List.filterMap_cons_some own]
    rfl

mutual

theorem Statement.obstacle?_eq (statement : Statement) :
    statement.obstacle? = statement.ownObstacle?.or (firstObstacle? statement.inside) := by
  cases statement with
  | expression expression => cases expression <;> rfl
  | assignment => rfl
  | variableDeclaration => rfl
  | functionDefinition _ _ _ body => exact Block.obstacle?_within body
  | ifThen _ body => exact Block.obstacle?_within body
  | «switch» _ cases => exact casesObstacle?_within cases
  | forLoop pre _ post body =>
    rw [Statement.obstacle?, Statement.inside, firstObstacle?_append, firstObstacle?_append,
      Block.obstacle?_within pre, Block.obstacle?_within post, Block.obstacle?_within body]
    rfl
  | block block => exact Block.obstacle?_within block
  | legacy => rfl
  | unrecognised => rfl

theorem Block.obstacle?_within (block : Block) : block.obstacle? = firstObstacle? block.within := by
  cases block with
  | mk statements => exact statementsObstacle?_within statements

theorem statementsObstacle?_within (statements : List Statement) :
    statementsObstacle? statements = firstObstacle? (statementsWithin statements) := by
  cases statements with
  | nil => rfl
  | cons statement rest =>
    rw [statementsObstacle?, statementsWithin, firstObstacle?_cons, firstObstacle?_append,
      Statement.obstacle?_eq statement, statementsObstacle?_within rest, Option.or_assoc]

theorem casesObstacle?_within (cases : List Case) :
    casesObstacle? cases = firstObstacle? (casesWithin cases) := by
  cases cases with
  | nil => rfl
  | cons case rest =>
    cases case with
    | mk _ body =>
      rw [casesObstacle?, casesWithin, firstObstacle?_append, casesObstacle?_within rest]
      exact congrArg (Option.or · _) (Block.obstacle?_within body)

end

/-- The search finds the first obstacle that is printed. -/
theorem Block.obstacle?_eq_head? (block : Block) : block.obstacle? = block.obstacles.head? :=
  Block.obstacle?_within block

/-! ## Trees without unknown nodes -/

mutual

theorem Statement.Recognised.inside {statement other : Statement} (recognised : statement.Recognised)
    (member : other ∈ statement.inside) : other.Recognised := by
  cases statement with
  | functionDefinition _ _ _ body => exact Block.Recognised.within recognised member
  | ifThen _ body => exact Block.Recognised.within recognised.2 member
  | «switch» _ cases => exact casesRecognised_within recognised.2 member
  | forLoop pre _ post body =>
    obtain ⟨before, -, after, last⟩ := recognised
    rcases List.mem_append.mp member with member | member
    · exact Block.Recognised.within before member
    · rcases List.mem_append.mp member with member | member
      · exact Block.Recognised.within after member
      · exact Block.Recognised.within last member
  | block block => exact Block.Recognised.within recognised member
  | expression | assignment | variableDeclaration | legacy | unrecognised => contradiction

theorem Block.Recognised.within {block : Block} {other : Statement} (recognised : block.Recognised)
    (member : other ∈ block.within) : other.Recognised := by
  cases block with
  | mk statements => exact statementsRecognised_within recognised member

theorem statementsRecognised_within {statements : List Statement} {other : Statement}
    (recognised : StatementsRecognised statements) (member : other ∈ statementsWithin statements) :
    other.Recognised := by
  cases statements with
  | nil => contradiction
  | cons statement rest =>
    rcases List.mem_cons.mp member with rfl | member
    · exact recognised.1
    · rcases List.mem_append.mp member with member | member
      · exact Statement.Recognised.inside recognised.1 member
      · exact statementsRecognised_within recognised.2 member

theorem casesRecognised_within {cases : List Case} {other : Statement}
    (recognised : CasesRecognised cases) (member : other ∈ casesWithin cases) : other.Recognised := by
  cases cases with
  | nil => contradiction
  | cons case rest =>
    cases case with
    | mk _ body =>
      rcases List.mem_append.mp member with member | member
      · exact Block.Recognised.within recognised.1.2 member
      · exact casesRecognised_within recognised.2 member

end

/-- Where every node is of a known kind, the obstacles are the legacy forms. -/
theorem Block.Recognised.obstacles {block : Block} (recognised : block.Recognised) :
    ∀ obstacle ∈ block.obstacles, ∃ form location, obstacle = .legacy form location := by
  intro obstacle member
  obtain ⟨statement, inside, own⟩ := List.mem_filterMap.mp member
  have known := Block.Recognised.within recognised inside
  cases statement with
  | legacy form _ location =>
    cases own
    exact ⟨form, location, rfl⟩
  | unrecognised => contradiction
  | expression expression =>
    cases expression with
    | unrecognised => contradiction
    | _ => contradiction
  | _ => contradiction

end ContractAsm.Asm

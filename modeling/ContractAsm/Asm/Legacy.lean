import ContractAsm.Asm.Basic

/-!
# Legacy forms

Labels, stack assignments and bare instructions cannot be carried over. The search goes
through a block depth first, statement by statement, into every block that a statement
holds, and stops at the first legacy form or unrecognised statement. Expressions, the values
of cases among them, are not looked at.
-/

namespace ContractAsm.Asm

/-- What stops the search. -/
inductive Obstacle where
  | legacy (form : LegacyForm) (location : Option Location)
  | unrecognised
deriving DecidableEq, Repr

mutual

/-- The first obstacle in a statement or in the blocks that it holds. -/
def Statement.obstacle? : Statement → Option Obstacle
  | .legacy form _ location => some (.legacy form location)
  | .unrecognised _ => some .unrecognised
  | .block block => block.obstacle?
  | .functionDefinition _ _ _ body _ => body.obstacle?
  | .ifThen _ body _ => body.obstacle?
  | .switch _ cases _ => casesObstacle? cases
  | .forLoop pre _ post body _ => pre.obstacle?.or (post.obstacle?.or body.obstacle?)
  | .expression (.unrecognised _) => some .unrecognised
  | .expression _ => none
  | .assignment _ _ _ => none
  | .variableDeclaration _ _ _ => none

def Case.obstacle? : Case → Option Obstacle
  | .mk _ body => body.obstacle?

def Block.obstacle? : Block → Option Obstacle
  | .mk statements _ _ => statementsObstacle? statements

def statementsObstacle? : List Statement → Option Obstacle
  | [] => none
  | statement :: rest => statement.obstacle?.or (statementsObstacle? rest)

def casesObstacle? : List Case → Option Obstacle
  | [] => none
  | case :: rest => case.obstacle?.or (casesObstacle? rest)

end

/-- How a message names the form. -/
def LegacyForm.plural : LegacyForm → Text
  | .label => "labels"
  | .stackAssignment => "stack assignments"
  | .instruction => "bare instructions"

end ContractAsm.Asm

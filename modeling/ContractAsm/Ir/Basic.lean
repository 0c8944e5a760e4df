import ContractAsm.Asm.Basic

/-!
# Assembly IR

The tree of the typed assembly that contracts are lowered to. Inline assembly stands in it
unchanged. A case is a statement too, since a tree may be put together from parts. A node
whose kind is not known at its place is kept as it came.
-/

namespace ContractAsm.Ir

inductive Expression where
  | literal (literal : Literal)
  | identifier (name : Text) (location : Option Location)
  | functionCall (name : Text) (arguments : List Expression) (location : Option Location)
  | unrecognised (node : Json)

mutual

inductive Statement where
  | expression (expression : Expression)
  | variableDeclaration (names : List TypedName) (value : Option Expression)
      (location : Option Location)
  | assignment (names : List Text) (value : Expression) (location : Option Location)
  | functionDefinition (name : Text) (parameters results : List TypedName) (body : Block)
      (location : Option Location)
  | case (case : Case)
  | switch (expression : Expression) (cases : List Case) (location : Option Location)
  | ifThen (condition : Expression) (body : Block) (location : Option Location)
  | forLoop (pre : Block) (condition : Expression) (post body : Block) (location : Option Location)
  | breakLoop (location : Option Location)
  | continueLoop (location : Option Location)
  | block (block : Block)
  | inlineAssembly (operations : Asm.Block) (location : Option Location)
  | unrecognised (node : Json)

/-- A case of a switch; without a value it is the default. The value of a recognised case is
a literal. Another statement in the place of a case stands for itself. -/
inductive Case where
  | mk (value : Option Expression) (body : Block) (location : Option Location)
  | other (statement : Statement)

/-- A block. What stands where only a block can counts as one, whatever kind its document
gives; the kind is kept. -/
inductive Block where
  | mk (statements : List Statement) (location : Option Location)
      (kind : Option Json := some (.string "block"))

end

def Case.isDefault : Case → Bool
  | .mk none _ _ => true
  | _ => false

namespace Block

def statements : Block → List Statement
  | .mk statements _ _ => statements

def location : Block → Option Location
  | .mk _ location _ => location

def empty : Block := .mk [] none

instance : Inhabited Block := ⟨empty⟩

def append : Block → List Statement → Block
  | .mk statements location kind, added => .mk (statements ++ added) location kind

@[simp] theorem statements_append (block : Block) (added : List Statement) :
    (block.append added).statements = block.statements ++ added := by
  cases block
  rfl

@[simp] theorem location_append (block : Block) (added : List Statement) :
    (block.append added).location = block.location := by
  cases block
  rfl

end Block

/-! ## Kinds -/

def Expression.kind : Expression → Text
  | .literal _ => "literal"
  | .identifier _ _ => "identifier"
  | .functionCall _ _ _ => "functionCall"
  | .unrecognised node => node.kind?.getD ""

def Statement.kind : Statement → Text
  | .expression value => value.kind
  | .variableDeclaration .. => "variableDeclaration"
  | .assignment .. => "assignment"
  | .functionDefinition .. => "functionDefinition"
  | .case _ => "case"
  | .switch .. => "switch"
  | .ifThen .. => "if"
  | .forLoop .. => "forLoop"
  | .breakLoop _ => "break"
  | .continueLoop _ => "continue"
  | .block _ => "block"
  | .inlineAssembly .. => "inlineAssembly"
  | .unrecognised node => node.kind?.getD ""

/-! ## Building

The few nodes that lowering makes itself. Nodes without a place in a source have no
location. -/

/-- The type of every word-sized value. -/
def wordType : Text := "u256"

def numberLiteral (value type : Text) : Literal := ⟨.number, value, some type, none⟩

def wordLiteral (value : Text) : Literal := numberLiteral value wordType

def call (name : Text) (arguments : List Expression) (location : Option Location) : Expression :=
  .functionCall name arguments location

/-- `revert(0:u256, 0:u256)`, which ends the call without return data. -/
def revert (location : Option Location) : Expression :=
  call "revert" [.literal (wordLiteral "0"), .literal (wordLiteral "0")] location

def blockOf (statements : List Statement) : Block := .mk statements none

end ContractAsm.Ir

import ContractAsm.Asm.Basic

/-!
# Source contracts

The elaborated tree of a source file, as far as lowering looks at it: contracts, their
functions, and in the bodies blocks, throws and inline assembly. Of every other statement
only its kind and its place are kept.
-/

namespace ContractAsm.Source

/-! ## Kinds -/

inductive Contract.Kind where
  | contract
  | interface
  | library
deriving DecidableEq, Repr

namespace Contract.Kind

def name : Contract.Kind → Text
  | contract => "contract"
  | interface => "interface"
  | library => "library"

def all : List Contract.Kind := [contract, interface, library]

def ofName? (name : Text) : Option Contract.Kind := all.find? fun kind => kind.name == name

end Contract.Kind

inductive Function.Kind where
  | ordinary
  | fallback
  | creation
deriving DecidableEq, Repr

namespace Function.Kind

def name : Function.Kind → Text
  | ordinary => "function"
  | fallback => "fallback"
  | creation => "constructor"

def all : List Function.Kind := [ordinary, fallback, creation]

def ofName? (name : Text) : Option Function.Kind := all.find? fun kind => kind.name == name

end Function.Kind

inductive Visibility where
  | anyone
  | outside
  | inherited
  | own
deriving DecidableEq, Repr

namespace Visibility

def name : Visibility → Text
  | anyone => "public"
  | outside => "external"
  | inherited => "internal"
  | own => "private"

def all : List Visibility := [anyone, outside, inherited, own]

def ofName? (name : Text) : Option Visibility := all.find? fun visibility => visibility.name == name

end Visibility

inductive Mutability where
  | payable
  | nonpayable
  | reading
  | stateless
deriving DecidableEq, Repr

namespace Mutability

def name : Mutability → Text
  | payable => "payable"
  | nonpayable => "nonpayable"
  | reading => "view"
  | stateless => "pure"

def all : List Mutability := [payable, nonpayable, reading, stateless]

def ofName? (name : Text) : Option Mutability := all.find? fun mutability => mutability.name == name

end Mutability

/-- The kinds of statement that are not lowered. -/
inductive OtherKind where
  | expression
  | variableDeclaration
  | ifThen
  | whileLoop
  | doWhile
  | forLoop
  | return
  | breakLoop
  | continueLoop
  | emit
  | placeholder
deriving DecidableEq, Repr

namespace OtherKind

def name : OtherKind → Text
  | expression => "expression"
  | variableDeclaration => "variableDeclaration"
  | ifThen => "if"
  | whileLoop => "while"
  | doWhile => "doWhile"
  | forLoop => "for"
  | .return => "return"
  | breakLoop => "break"
  | continueLoop => "continue"
  | emit => "emit"
  | placeholder => "placeholder"

def all : List OtherKind :=
  [expression, variableDeclaration, ifThen, whileLoop, doWhile, forLoop, .return, breakLoop,
    continueLoop, emit, placeholder]

def ofName? (name : Text) : Option OtherKind := all.find? fun kind => kind.name == name

end OtherKind

/-! ## Trees -/

/-- A statement. One whose kind is not known is kept as it came. -/
inductive Statement where
  | block (statements : List Statement) (location : Location)
  | throw (location : Location)
  | inlineAssembly (operations : Asm.Block) (location : Location)
  | other (kind : OtherKind) (location : Location)
  | unrecognised (node : Json)

structure Block where
  statements : List Statement
  location : Location

/-- A base contract, struct, enum, event or modifier; only its name and place are kept. -/
structure NamedDeclaration where
  name : Text
  location : Option Location
deriving DecidableEq, Repr

structure Parameter where
  name : Text
  type : Text
deriving DecidableEq, Repr

structure Function where
  name : Text
  kind : Function.Kind
  visibility : Visibility
  mutability : Mutability
  implemented : Bool
  modifiers : List NamedDeclaration
  parameters : List Parameter
  returnParameters : List Parameter
  body : Option Block
  location : Location

structure Contract where
  name : Text
  qualifiedName : Text
  kind : Contract.Kind
  baseContracts : List NamedDeclaration
  structs : List NamedDeclaration
  enums : List NamedDeclaration
  events : List NamedDeclaration
  modifiers : List NamedDeclaration
  functions : List Function
  location : Location

structure SourceUnit where
  path : Text
  contracts : List Contract

/-! ## Predicates -/

namespace Function

def isFallback (function : Function) : Bool := function.kind = .fallback

def isCreation (function : Function) : Bool := function.kind = .creation

def isPayable (function : Function) : Bool := function.mutability = .payable

/-- Whether the function has a selector in the dispatcher: it can be called from outside and
is neither the fallback nor a constructor. -/
def isExternallyCallable (function : Function) : Bool :=
  function.kind = .ordinary && (function.visibility = .anyone || function.visibility = .outside)

end Function

namespace Contract

/-- The first fallback function, if the contract declares one. -/
def fallback? (contract : Contract) : Option Function := contract.functions.find? Function.isFallback

def fallbackIndex? (contract : Contract) : Option Nat := contract.functions.findIdx? Function.isFallback

end Contract

end ContractAsm.Source

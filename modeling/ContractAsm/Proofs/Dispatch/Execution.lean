import ContractAsm.Ir.Basic
import Mathlib.Data.Nat.Digits.Defs

/-!
# Running the IR

What a block of the IR does when it is called with some data and some value. The
instructions that generated code relies on have the meaning that the machine gives them;
every other instruction, inline assembly and the value of a string are left to a
parameter. A call goes to the definition that the innermost enclosing block has for its
name, and to an instruction if there is none.

Running is a partial function: a program that goes on forever has no result. None of its
equations has a side condition, so a program is run by rewriting.
-/

namespace ContractAsm.Execution

open Ir (Expression Statement Case Block)

/-! ## Words -/

abbrev Word := BitVec 256

/-- The number that digits stand for in a base, the highest one first. -/
def positional (base : Nat) (digits : List Nat) : Nat := Nat.ofDigits base digits.reverse

def bytesValue (bytes : List UInt8) : Nat := positional 256 (bytes.map UInt8.toNat)

def paddedBytes (data : List UInt8) (offset count : Nat) : List UInt8 :=
  ((data.drop offset).take count) ++ List.replicate (count - (data.drop offset).length) 0

def digitValue (unit : CodeUnit) : Nat :=
  if unit.isDigit then unit.toNat - 0x30
  else if unit.toNat < 0x61 then unit.toNat - 0x41 + 10
  else unit.toNat - 0x61 + 10

def digitsValue (base : Nat) (digits : List CodeUnit) : Nat := positional base (digits.map digitValue)

/-- The value of a number literal, decimal or hexadecimal. -/
def numberValue (text : Text) : Nat :=
  match text.units with
  | CodeUnit.zero :: CodeUnit.lowerX :: digits => digitsValue 16 digits
  | digits => digitsValue 10 digits

/-! ## Machines -/

/-- How a call ends early: it gives up and returns some of its memory, an instruction ends
it, or the program asks for something that it has not got. -/
inductive Exit (η : Type) where
  | reverted (offset length : Word)
  | halted (result : η)
  | stuck

/-- What runs on a state, may end early and may go on forever. -/
abbrev Run (σ η : Type) := StateT σ (ExceptT (Exit η) Option)

/-- The variables in scope with their values, the innermost first. -/
abbrev Locals := List (Text × Word)

/-- The call that is answered, and what the instructions do that are not fixed here. -/
structure Machine (σ η : Type) where
  callData : List UInt8
  callValue : Word
  instruction : Text → List Word → Run σ η (List Word)
  assembly : Asm.Block → Locals → Run σ η Locals
  stringValue : Text → Word

inductive Builtin where
  | callvalue
  | calldataload
  | div
  | exp
  | revert
deriving DecidableEq, Repr

namespace Builtin

def name : Builtin → Text
  | callvalue => "callvalue"
  | calldataload => "calldataload"
  | div => "div"
  | exp => "exp"
  | revert => "revert"

def all : List Builtin := [callvalue, calldataload, div, exp, revert]

def ofName? (name : Text) : Option Builtin := all.find? fun builtin => builtin.name == name

end Builtin

section

variable {σ η : Type}

def stop {α : Type} (exit : Exit η) : Run σ η α := fun _ => some (.error exit)

namespace Machine

variable (machine : Machine σ η)

def apply : Builtin → List Word → Run σ η (List Word)
  | .callvalue, [] => return [machine.callValue]
  | .calldataload, [offset] => return [.ofNat 256 (bytesValue (paddedBytes machine.callData offset.toNat 32))]
  | .div, [dividend, divisor] => return [dividend / divisor]
  | .exp, [base, exponent] => return [.ofNat 256 (base.toNat ^ exponent.toNat)]
  | .revert, [offset, length] => stop (.reverted offset length)
  | _, _ => stop .stuck

/-- What a name does for which no block has a definition. -/
def instruct (name : Text) (values : List Word) : Run σ η (List Word) :=
  match Builtin.ofName? name with
  | some builtin => machine.apply builtin values
  | none => machine.instruction name values

def literal (literal : Literal) : Word :=
  match literal.kind with
  | .number => .ofNat 256 (numberValue literal.value)
  | .bool => if literal.value = "true" then 1 else 0
  | .string => machine.stringValue literal.value

/-- The body of the first case that tests for the value, or else of the default. -/
def selected (value : Word) : List Case → Option Block
  | [] => none
  | .mk (some (.literal tested)) body _ :: rest =>
      if machine.literal tested = value then some body else selected value rest
  | .mk none body _ :: _ => some body
  | _ :: rest => selected value rest

end Machine

/-! ## Scopes -/

/-- The statements of the enclosing blocks, the innermost first. -/
abbrev Scope := List (List Statement)

structure Definition where
  parameters : List TypedName
  results : List TypedName
  body : Block

def Definition.of? (name : Text) : Statement → Option Definition
  | .functionDefinition defined parameters results body _ =>
      if defined = name then some ⟨parameters, results, body⟩ else none
  | _ => none

/-- The definition that a name stands for, and the scope that it was made in. -/
def definition? (name : Text) : Scope → Option (Definition × Scope)
  | [] => none
  | statements :: outer =>
      match statements.findSome? (Definition.of? name) with
      | some definition => some (definition, statements :: outer)
      | none => definition? name outer

namespace Locals

/-- Gives a variable that is in scope another value. -/
def assign (name : Text) (value : Word) : Locals → Option Locals
  | [] => none
  | (declared, old) :: rest =>
      if declared = name then some ((declared, value) :: rest)
      else (assign name value rest).map ((declared, old) :: ·)

def assignAll : List Text → List Word → Locals → Option Locals
  | [], [], locals => some locals
  | name :: names, value :: values, locals => (assign name value locals).bind (assignAll names values)
  | _, _, _ => none

def declare (names : List TypedName) (values : List Word) (locals : Locals) : Locals :=
  (names.map TypedName.name).zip values ++ locals

/-- The variables that were in scope before a block was entered. -/
def leave (locals outer : Locals) : Locals := locals.drop (locals.length - outer.length)

end Locals

/-- How a statement is left. -/
inductive Flow where
  | onward
  | broken
  | continued
deriving DecidableEq, Repr

/-! ## Execution -/

def only : List Word → Run σ η Word
  | [value] => return value
  | _ => stop .stuck

def orStuck {α : Type} : Option α → Run σ η α
  | some value => return value
  | none => stop .stuck

mutual

def Machine.evaluate (machine : Machine σ η) (scope : Scope) (locals : Locals) (expression : Expression) :
    Run σ η (List Word) :=
  match expression with
  | .literal literal => return [machine.literal literal]
  | .identifier name _ => do return [← orStuck (locals.lookup name)]
  | .functionCall name arguments _ => do
      machine |>.invoke scope name (← machine |>.evaluateEach scope locals arguments)
  | .unrecognised _ => stop .stuck
partial_fixpoint

/-- The values of arguments, the last one first. -/
def Machine.evaluateEach (machine : Machine σ η) (scope : Scope) (locals : Locals) (arguments : List Expression) :
    Run σ η (List Word) :=
  match arguments with
  | [] => return []
  | first :: rest => do
      let values ← machine |>.evaluateEach scope locals rest
      return (← only (← machine |>.evaluate scope locals first)) :: values
partial_fixpoint

def Machine.invoke (machine : Machine σ η) (scope : Scope) (name : Text) (values : List Word) :
    Run σ η (List Word) :=
  match definition? name scope with
  | none => machine.instruct name values
  | some (function, outer) =>
      if function.parameters.length = values.length then do
        let zeros := List.replicate function.results.length 0
        let locals := Locals.declare function.results zeros (Locals.declare function.parameters values [])
        let (locals, _) ← machine |>.executeBlock outer locals function.body
        orStuck (function.results.mapM fun result => locals.lookup result.name)
      else stop .stuck
partial_fixpoint

def Machine.execute (machine : Machine σ η) (scope : Scope) (locals : Locals) (statement : Statement) :
    Run σ η (Locals × Flow) :=
  match statement with
  | .expression expression => do
      match ← machine |>.evaluate scope locals expression with
      | [] => return (locals, .onward)
      | _ => stop .stuck
  | .variableDeclaration names none _ =>
      return (locals.declare names (List.replicate names.length 0), .onward)
  | .variableDeclaration names (some value) _ => do
      let values ← machine |>.evaluate scope locals value
      if names.length = values.length then return (locals.declare names values, .onward)
      else stop .stuck
  | .assignment names value _ => do
      let values ← machine |>.evaluate scope locals value
      return (← orStuck (locals.assignAll names values), .onward)
  | .functionDefinition _ _ _ _ _ => return (locals, .onward)
  | .switch expression cases _ => do
      let value ← only (← machine |>.evaluate scope locals expression)
      match machine.selected value cases with
      | some body => machine |>.executeBlock scope locals body
      | none => return (locals, .onward)
  | .ifThen condition body _ => do
      if (← only (← machine |>.evaluate scope locals condition)) = 0 then return (locals, .onward)
      else machine |>.executeBlock scope locals body
  | .forLoop pre condition post body _ => do
      let inner := pre.statements :: scope
      let (started, _) ← machine |>.executeAll inner locals pre.statements
      let (ended, flow) ← machine |>.iterate inner started condition post body
      return (ended.leave locals, flow)
  | .breakLoop _ => return (locals, .broken)
  | .continueLoop _ => return (locals, .continued)
  | .block block => machine |>.executeBlock scope locals block
  | .inlineAssembly operations _ => return (← machine.assembly operations locals, .onward)
  | .case _ | .unrecognised _ => stop .stuck
partial_fixpoint

/-- Runs statements in a row until one leaves the row. -/
def Machine.executeAll (machine : Machine σ η) (scope : Scope) (locals : Locals) (statements : List Statement) :
    Run σ η (Locals × Flow) :=
  match statements with
  | [] => return (locals, .onward)
  | first :: rest => do
      let (locals, flow) ← machine |>.execute scope locals first
      if flow = .onward then machine |>.executeAll scope locals rest else return (locals, flow)
partial_fixpoint

/-- Runs a block. What it declares is gone afterwards. -/
def Machine.executeBlock (machine : Machine σ η) (scope : Scope) (locals : Locals) (block : Block) :
    Run σ η (Locals × Flow) := do
  let (inner, flow) ← machine |>.executeAll (block.statements :: scope) locals block.statements
  return (inner.leave locals, flow)
partial_fixpoint

/-- Runs the body of a loop as long as the condition holds. -/
def Machine.iterate (machine : Machine σ η) (scope : Scope) (locals : Locals) (condition : Expression)
    (post body : Block) : Run σ η (Locals × Flow) := do
  if (← only (← machine |>.evaluate scope locals condition)) = 0 then return (locals, .onward)
  else
    let (locals, flow) ← machine |>.executeBlock scope locals body
    if flow = .broken then return (locals, .onward)
    else
      let (locals, _) ← machine |>.executeBlock scope locals post
      machine |>.iterate scope locals condition post body
partial_fixpoint

end

/-! ## Equations -/

open Machine

variable {machine : Machine σ η} {scope outer : Scope} {locals : Locals}

@[simp] theorem only_singleton (value : Word) : (only [value] : Run σ η Word) = pure value := rfl

theorem evaluate_literal (literal : Literal) :
    evaluate machine scope locals (.literal literal) = pure [machine.literal literal] := by
  rw [evaluate]

theorem evaluate_call (name : Text) (arguments : List Expression) (location : Option Location) :
    evaluate machine scope locals (.functionCall name arguments location)
      = evaluateEach machine scope locals arguments >>= invoke machine scope name := by
  rw [evaluate]

theorem evaluateEach_nil : evaluateEach machine scope locals [] = pure [] := by
  rw [evaluateEach]

theorem evaluateEach_cons (first : Expression) (rest : List Expression) :
    evaluateEach machine scope locals (first :: rest) = (do
      let values ← evaluateEach machine scope locals rest
      return (← only (← evaluate machine scope locals first)) :: values) := by
  rw [evaluateEach]

/-- A name without a definition stands for an instruction. -/
theorem invoke_instruction {name : Text} (undefined : definition? name scope = none) (values : List Word) :
    invoke machine scope name values = machine.instruct name values := by
  rw [invoke, undefined]

theorem invoke_defined {name : Text} {function : Definition} {values : List Word}
    (defined : definition? name scope = some (function, outer))
    (enough : function.parameters.length = values.length) :
    invoke machine scope name values = (do
      let zeros := List.replicate function.results.length 0
      let locals := Locals.declare function.results zeros (Locals.declare function.parameters values [])
      let (locals, _) ← executeBlock machine outer locals function.body
      orStuck (function.results.mapM fun result => locals.lookup result.name)) := by
  rw [invoke, defined]
  exact if_pos enough

theorem execute_expression (expression : Expression) :
    execute machine scope locals (.expression expression) = (do
      match ← evaluate machine scope locals expression with
      | [] => return (locals, .onward)
      | _ => stop .stuck) := by
  rw [execute]

theorem execute_assignment (names : List Text) (value : Expression) (location : Option Location) :
    execute machine scope locals (.assignment names value location) = (do
      let values ← evaluate machine scope locals value
      return (← orStuck (locals.assignAll names values), .onward)) := by
  rw [execute]

theorem execute_switch (expression : Expression) (cases : List Case) (location : Option Location) :
    execute machine scope locals (.switch expression cases location) = (do
      let value ← only (← evaluate machine scope locals expression)
      match machine.selected value cases with
      | some body => executeBlock machine scope locals body
      | none => return (locals, .onward)) := by
  rw [execute]

theorem Locals.leave_self (locals : Locals) : locals.leave locals = locals := by
  rw [Locals.leave, Nat.sub_self]
  rfl

theorem executeAll_nil : executeAll machine scope locals [] = pure (locals, .onward) := by
  rw [executeAll]

theorem executeAll_cons (first : Statement) (rest : List Statement) :
    executeAll machine scope locals (first :: rest) = (do
      let (locals, flow) ← execute machine scope locals first
      if flow = .onward then executeAll machine scope locals rest else return (locals, flow)) := by
  rw [executeAll]

theorem executeBlock_mk (statements : List Statement) (location : Option Location) (kind : Option Json) :
    executeBlock machine scope locals (.mk statements location kind) = (do
      let (inner, flow) ← executeAll machine (statements :: scope) locals statements
      return (inner.leave locals, flow)) := by
  rw [executeBlock]
  rfl

/-! ## Blocks without definitions -/

theorem definition?_cons {statements : List Statement} {name : Text}
    (none : statements.findSome? (Definition.of? name) = none) :
    definition? name (statements :: scope) = definition? name scope := by
  rw [definition?, none]

theorem invoke_cons {statements : List Statement} {name : Text}
    (none : statements.findSome? (Definition.of? name) = none) (values : List Word) :
    invoke machine (statements :: scope) name values = invoke machine scope name values := by
  rw [invoke, definition?_cons none, ← invoke]

end

end ContractAsm.Execution

import ContractAsm.Lowering.Draft
import ContractAsm.Lowering.Trace
import ContractAsm.Signature

/-!
# Lowering functions

The statements of a function go into one flat list: nested blocks are flattened, a throw
becomes a call of `revert`, and inline assembly is carried over as it is. Everything else
is refused, and so are the legacy forms of assembly wherever they stand.
-/

namespace ContractAsm.Lowering

open Source (Function)

/-! ## Inline assembly -/

/-- Fails at the first legacy form, at its own place or else at the given one. -/
def refuseLegacy (operations : Asm.Block) (fallback : Location) : Except Failure Unit :=
  match operations.obstacle? with
  | none => .ok ()
  | some (.legacy form location) =>
      .error (.unsupported (.legacyAssembly form) (location.getD fallback))
  | some .unrecognised => .error .unrecognised

def carryAssembly (operations : Asm.Block) (location : Location) : Except Failure Ir.Statement := do
  refuseLegacy operations location
  return .inlineAssembly operations (some location)

/-! ## Statements -/

mutual

/-- Adds what a statement is lowered to. Nested blocks are flattened. -/
def lowerStatement (draft : FunctionDraft) : Source.Statement → Except Failure FunctionDraft
  | .block statements _ => lowerStatements draft statements
  | .throw location => draft.append (.expression (Ir.revert (some location)))
  | .inlineAssembly operations location => do
      draft.append (← carryAssembly operations location)
  | .other kind location => .error (.unsupported (.statement kind) location)
  | .unrecognised _ => .error .unrecognised

def lowerStatements (draft : FunctionDraft) : List Source.Statement → Except Failure FunctionDraft
  | [] => .ok draft
  | statement :: rest => do lowerStatements (← lowerStatement draft statement) rest

end

/-! ## Functions -/

/-- The body of a function that violates no restriction, its statements apart, or else the
first restriction violated. -/
def functionBody (function : Function) : Except Unsupported Source.Block :=
  if function.isCreation then .error .constructors
  else
    match function.implemented, function.body with
    | true, some body =>
        if function.modifiers ≠ [] then .error .modifiers
        else if function.parameters ≠ [] then .error .parameters
        else if function.returnParameters ≠ [] then .error .returnParameters
        else .ok body
    | _, _ => .error .unimplementedFunction

def admitFunction (function : Function) : Except Failure Source.Block :=
  (functionBody function).mapError fun what => .unsupported what function.location

def lowerFunction (function : Function) : Traced Ir.Statement := do
  let body ← Traced.ofExcept (admitFunction function)
  Traced.tell ("lowering function " ++ function.uniqueName)
  Traced.ofExcept do
    let draft ← lowerStatements (.start function.uniqueName function.location) body.statements
    return (← draft.commit).1

def lowerFunctions : List Function → Traced (List Ir.Statement)
  | [] => return []
  | function :: rest => do
      let definition ← lowerFunction function
      return definition :: (← lowerFunctions rest)

end ContractAsm.Lowering

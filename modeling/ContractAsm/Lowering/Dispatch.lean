import ContractAsm.Lowering.Snippet
import ContractAsm.Signature

/-!
# The dispatcher

The last statement of a contract is a switch over the selector of the call: one case for
every externally callable function in the order of declaration, and a default case for the
fallback function, or for giving up if there is none.
-/

namespace ContractAsm.Lowering

open Source (Function Contract)

/-- Calls the target, after the value guard unless the function accepts value. -/
def callBody (function : Function) (target : Text) : Ir.Block :=
  let guard : List Ir.Statement :=
    if function.isPayable then [] else [.expression (Ir.call noValueCheck [] none)]
  Ir.blockOf (guard ++ [.expression (Ir.call target [] none)])

def callCase (function : Function) : Ir.Case :=
  .mk (some (.literal function.selector)) (callBody function function.uniqueName) none

def otherwiseCase (contract : Contract) : Ir.Case :=
  let body := match contract.fallback? with
    | some fallback => callBody fallback fallbackName
    | none => Ir.blockOf [.expression (Ir.revert none)]
  .mk none body none

def dispatchCases (contract : Contract) : List Ir.Case :=
  (contract.functions.filter Function.isExternallyCallable).map callCase ++ [otherwiseCase contract]

/-- The switch alone, without the helpers that it calls. -/
def dispatcherSwitch (contract : Contract) : Ir.Statement :=
  .switch (Ir.call selectorReader [] none) (dispatchCases contract) none

/-- Adds the helpers and then the switch to the block of a contract. -/
def appendDispatcher (contract : Contract) (body : Ir.Block) : Except Failure Ir.Block :=
  match Snippet.appendTo body dispatcherSnippets with
  | (body, none) => .ok (body.append [dispatcherSwitch contract])
  | (_, some failure) => .error failure

end ContractAsm.Lowering

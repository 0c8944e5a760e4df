import ContractAsm.Proofs.Dispatch.Helpers

/-!
# The dispatcher routes every call

A call is meant for the first function, in the order of declaration, that can be called
from outside and whose selector the call data starts with, or else for the first fallback
function. The switch at the end of a contract calls that function, unless value is sent to
one that does not accept it; where there is no such function it gives up.
-/

namespace ContractAsm

open Execution (paddedBytes selectorBytes)

/-- Whether a function is the one that call data asks for. Missing bytes count as zeros. -/
def Source.Function.answers (callData : List UInt8) (function : Source.Function) : Bool :=
  function.isExternallyCallable && selectorBytes function.signature == paddedBytes callData 0 4

/-- The function that a call is meant for, if there is one. -/
def Source.Contract.target? (contract : Source.Contract) (callData : List UInt8) : Option Source.Function :=
  (contract.functions.find? (Source.Function.answers callData)).or contract.fallback?

namespace Execution

open Ir (Expression Statement Case Block)
open Lowering
open Machine
open Source (Function Contract)

variable {σ η : Type} {machine : Machine σ η} {scope : Scope} {locals : Locals}

/-! ## The case of a call -/

/-- A literal in the switch is the value read exactly if the call data asks for its function. -/
theorem literal_selector_iff (function : Function) :
    machine.literal function.selector = machine.selector
      ↔ selectorBytes function.signature = paddedBytes machine.callData 0 4 := by
  have written : machine.literal function.selector
      = .ofNat 256 (bytesValue (selectorBytes function.signature)) := by
    rw [← numberValue_selectorOf]
    rfl
  have same : (selectorBytes function.signature).length = (paddedBytes machine.callData 0 4).length := by
    rw [length_selectorBytes, length_paddedBytes]
  have first := bytesValue_lt (selectorBytes function.signature)
  have second := bytesValue_lt (paddedBytes machine.callData 0 4)
  rw [length_selectorBytes] at first
  rw [length_paddedBytes] at second
  have small : 256 ^ 4 ≤ 2 ^ 256 := by norm_num
  rw [written, Machine.selector, ← bytesValue_inj same]
  constructor
  · intro equal
    have values := congrArg BitVec.toNat equal
    rwa [BitVec.toNat_ofNat, BitVec.toNat_ofNat, Nat.mod_eq_of_lt (Nat.lt_of_lt_of_le first small),
      Nat.mod_eq_of_lt (Nat.lt_of_lt_of_le second small)] at values
  · intro equal
    rw [equal]

/-- The body that is chosen: that of the first function that answers, or else the last one. -/
theorem selected_callCases (functions : List Function) (otherwise : Block) (location : Option Location) :
    machine.selected machine.selector
        ((functions.filter Function.isExternallyCallable).map callCase ++ [.mk none otherwise location])
      = some (match functions.find? (Function.answers machine.callData) with
        | some function => callBody function function.uniqueName
        | none => otherwise) := by
  induction functions with
  | nil => rfl
  | cons function rest ih =>
    by_cases callable : function.isExternallyCallable = true
    · rw [List.filter_cons_of_pos callable, List.map_cons, List.cons_append, callCase, Machine.selected]
      by_cases asked : selectorBytes function.signature = paddedBytes machine.callData 0 4
      · have answers : function.answers machine.callData = true := by
          rw [Function.answers, callable, asked, Bool.true_and, beq_self_eq_true]
        rw [if_pos (literal_selector_iff function |>.mpr asked), List.find?_cons_of_pos answers]
      · have silent : ¬ function.answers machine.callData = true := by
          rw [Function.answers, callable, Bool.true_and, beq_iff_eq]
          exact asked
        rw [if_neg fun equal => asked ((literal_selector_iff function).mp equal),
          List.find?_cons_of_neg silent, ih]
    · have silent : ¬ function.answers machine.callData = true := by
        rw [Function.answers, Bool.and_eq_true]
        exact fun both => callable both.1
      rw [List.filter_cons_of_neg callable, List.find?_cons_of_neg silent, ih]

theorem uniqueName_of_fallback {contract : Contract} {function : Function}
    (found : contract.fallback? = some function) : function.uniqueName = fallbackName := by
  have fallback := List.find?_some found
  rw [Function.uniqueName, if_pos fallback]

/-- What the switch does when its expression yields the selector of the call. -/
theorem selected_dispatchCases (contract : Contract) :
    machine.selected machine.selector (dispatchCases contract)
      = some (match contract.target? machine.callData with
        | some function => callBody function function.uniqueName
        | none => Ir.blockOf [.expression (Ir.revert none)]) := by
  rw [dispatchCases, otherwiseCase, selected_callCases, Contract.target?]
  cases found : contract.functions.find? (Function.answers machine.callData) with
  | some function => rfl
  | none =>
    cases fallback : contract.fallback? with
    | some function => simp only [Option.none_or, uniqueName_of_fallback fallback]
    | none => rfl

/-! ## Running a case -/

theorem execute_call (name : Text) :
    execute machine scope locals (.expression (Ir.call name [] none)) = (do
      match ← invoke machine scope name [] with
      | [] => return (locals, .onward)
      | _ => stop .stuck) := by
  have called : evaluate machine scope locals (Ir.call name [] none) = invoke machine scope name [] := by
    rw [Ir.call, evaluate_call, evaluateEach_nil, pure_bind]
  rw [execute_expression]
  exact congrArg (· >>= _) called

theorem execute_call_leave (name : Text) :
    (execute machine scope locals (.expression (Ir.call name [] none)) >>=
        fun (inner, flow) => pure (inner.leave locals, flow))
      = execute machine scope locals (.expression (Ir.call name [] none)) := by
  rw [execute_call, bind_assoc]
  congr 1
  funext values
  cases values with
  | nil =>
    rw [pure_bind]
    show pure (locals.leave locals, Flow.onward) = _
    rw [Locals.leave_self]
  | cons => rfl

theorem execute_call_cons {statements : List Statement}
    (empty : ∀ name, statements.findSome? (Definition.of? name) = none) (name : Text) :
    execute machine (statements :: scope) locals (.expression (Ir.call name [] none))
      = execute machine scope locals (.expression (Ir.call name [] none)) := by
  rw [execute_call, execute_call, invoke_cons (empty name)]

theorem executeAll_guarded
    (guarded : invoke machine scope noValueCheck []
      = if machine.callValue = 0 then pure [] else giveUp) (rest : List Statement) :
    executeAll machine scope locals (.expression (Ir.call noValueCheck [] none) :: rest)
      = if machine.callValue = 0 then executeAll machine scope locals rest else giveUp := by
  rw [executeAll_cons, execute_call, guarded]
  by_cases unpaid : machine.callValue = 0
  · rw [if_pos unpaid, if_pos unpaid]
    rfl
  · rw [if_neg unpaid, if_neg unpaid]
    rfl

/-- The body of a case calls its function, after the value check unless the function
accepts value. -/
theorem executeBlock_callBody
    (guarded : invoke machine scope noValueCheck []
      = if machine.callValue = 0 then pure [] else giveUp)
    (function : Function) (name : Text) :
    executeBlock machine scope locals (callBody function name)
      = if function.isPayable = true ∨ machine.callValue = 0 then
          execute machine scope locals (.expression (Ir.call name [] none))
        else giveUp := by
  rw [callBody, Ir.blockOf, executeBlock_mk]
  by_cases payable : function.isPayable = true
  · rw [if_pos payable, if_pos (Or.inl payable), List.nil_append, executeAll_single,
      execute_call_cons (fun _ => rfl)]
    exact execute_call_leave name
  · rw [if_neg payable, List.singleton_append, executeAll_guarded ((invoke_cons rfl []).trans guarded)]
    by_cases unpaid : machine.callValue = 0
    · rw [if_pos unpaid, if_pos (Or.inr unpaid), executeAll_single, execute_call_cons (fun _ => rfl)]
      exact execute_call_leave name
    · rw [if_neg unpaid, if_neg (not_or.mpr ⟨payable, unpaid⟩)]
      rfl

/-! ## Whole contracts -/

/-- The names that the dispatcher relies on: its helpers, and the instructions these use. -/
def reliedNames : List Text := [noValueCheck, selectorReader] ++ Builtin.all.map Builtin.name

def definedName? : Statement → Option Text
  | .functionDefinition name _ _ _ _ => some name
  | _ => none

def definedNames (statements : List Statement) : List Text := statements.filterMap definedName?

theorem Definition.of?_eq_none {name : Text} {statement : Statement}
    (other : definedName? statement ≠ some name) : Definition.of? name statement = none := by
  cases statement with
  | functionDefinition defined =>
    rw [Definition.of?, if_neg]
    rintro rfl
    exact other rfl
  | _ => rfl

theorem findSome?_of_undefined {name : Text} {statements : List Statement}
    (undefined : name ∉ definedNames statements) :
    statements.findSome? (Definition.of? name) = none := by
  rw [List.findSome?_eq_none_iff]
  intro statement mem
  apply Definition.of?_eq_none
  intro defined
  exact undefined (List.mem_filterMap.mpr ⟨statement, mem, defined⟩)

section

variable {contract : Contract} {body : Block}

/-- What the switch is run in: the statements of the block, of which it is the last. -/
def dispatchScope (contract : Contract) (body : Block) (helpers : Helpers) : Scope :=
  [body.statements ++ helpers.statements ++ [dispatcherSwitch contract]]

theorem definition?_dispatchScope (helpers : Helpers) {name : Text}
    (undefined : name ∉ definedNames body.statements) :
    definition? name (dispatchScope contract body helpers)
      = (helpers.statements.findSome? (Definition.of? name)).map
          (·, dispatchScope contract body helpers) := by
  rw [dispatchScope, definition?, List.append_assoc, List.findSome?_append,
    findSome?_of_undefined undefined, Option.none_or, List.findSome?_append]
  cases helpers.statements.findSome? (Definition.of? name) <;> rfl

variable (free : ∀ name ∈ reliedNames, name ∉ definedNames body.statements)
include free

theorem keepsBuiltins_dispatchScope (helpers : Helpers) :
    Scope.KeepsBuiltins (dispatchScope contract body helpers) := by
  intro builtin
  have relied : builtin.name ∈ reliedNames := by
    cases builtin <;> decide
  rw [definition?_dispatchScope helpers (free _ relied)]
  cases builtin <;> rfl

theorem invoke_noValueCheck (helpers : Helpers) :
    invoke machine (dispatchScope contract body helpers) noValueCheck []
      = if machine.callValue = 0 then pure [] else giveUp := by
  have defined : definition? noValueCheck (dispatchScope contract body helpers)
      = some (⟨[], [], helpers.noValueBody⟩, dispatchScope contract body helpers) := by
    rw [definition?_dispatchScope helpers (free _ (by decide))]
    rfl
  exact invoke_noValue helpers.noValue defined (keepsBuiltins_dispatchScope free helpers)

theorem invoke_selectorReader (helpers : Helpers) :
    invoke machine (dispatchScope contract body helpers) selectorReader [] = pure [machine.selector] := by
  have defined : definition? selectorReader (dispatchScope contract body helpers)
      = some (⟨[], [⟨"sig", some Ir.wordType⟩], helpers.selectorBody⟩,
          dispatchScope contract body helpers) := by
    rw [definition?_dispatchScope helpers (free _ (by decide))]
    rfl
  exact invoke_selector helpers.selector defined (keepsBuiltins_dispatchScope free helpers)

theorem execute_dispatcherSwitch (helpers : Helpers) :
    execute machine (dispatchScope contract body helpers) locals (dispatcherSwitch contract)
      = match contract.target? machine.callData with
        | some function =>
            if function.isPayable = true ∨ machine.callValue = 0 then
              execute machine (dispatchScope contract body helpers) locals
                (.expression (Ir.call function.uniqueName [] none))
            else giveUp
        | none => giveUp := by
  rw [dispatcherSwitch, execute_switch, Ir.call, evaluate_call, evaluateEach_nil, pure_bind,
    invoke_selectorReader free, pure_bind, only_singleton, pure_bind, selected_dispatchCases]
  cases contract.target? machine.callData with
  | some function => exact executeBlock_callBody (invoke_noValueCheck free helpers) function _
  | none =>
    have keeps : Scope.KeepsBuiltins
        ([.expression (Ir.revert none)] :: dispatchScope contract body helpers) :=
      (keepsBuiltins_dispatchScope free helpers).enter fun _ => rfl
    show executeBlock machine _ locals (Ir.blockOf [.expression (Ir.revert none)]) = _
    rw [Ir.blockOf, executeBlock_mk, executeAll_single]
    exact congrArg (· >>= _) (execute_revert keeps none none none)

end

/-- Adding the dispatcher never fails, and the switch that it adds at the end calls the
function that the call data asks for. A call that asks for none, or that sends value to a
function that does not accept it, is given up. -/
theorem appendDispatcher_routes (contract : Contract) (body : Block)
    (free : ∀ name ∈ reliedNames, name ∉ definedNames body.statements) :
    ∃ block, appendDispatcher contract body = .ok block
      ∧ block.statements.getLast? = some (dispatcherSwitch contract)
      ∧ ∀ (σ η : Type) (machine : Machine σ η) (locals : Locals),
        execute machine [block.statements] locals (dispatcherSwitch contract)
          = match contract.target? machine.callData with
            | some function =>
                if function.isPayable = true ∨ machine.callValue = 0 then
                  execute machine [block.statements] locals
                    (.expression (Ir.call function.uniqueName [] none))
                else giveUp
            | none => giveUp := by
  obtain ⟨helpers, added⟩ := appendDispatcher_ok contract body
  refine ⟨_, added, ?_, fun σ η machine locals => ?_⟩
  · rw [Block.statements_append, List.getLast?_concat]
  · rw [Block.statements_append, Block.statements_append]
    exact execute_dispatcherSwitch free helpers

def ping : Function where
  name := "f"
  kind := .ordinary
  visibility := .outside
  mutability := .nonpayable
  implemented := true
  modifiers := []
  parameters := []
  returnParameters := []
  body := none
  location := default

def pingContract : Contract where
  name := "Ping"
  qualifiedName := "Ping"
  kind := .contract
  baseContracts := []
  structs := []
  enums := []
  events := []
  modifiers := []
  functions := [{ ping with name := "receive", kind := .fallback, mutability := .payable }, ping]
  location := default

/-- The first bytes of the call data are those of the hash of `f()`. -/
theorem appendDispatcher_routes_ping :
    ∃ block, appendDispatcher pingContract (Ir.blockOf [.functionDefinition ping.uniqueName [] [] .empty none])
        = .ok block
      ∧ ∀ machine : Machine Unit Unit, machine.callData = [0x26, 0x12, 0x1f, 0xf0, 0x01] →
        execute machine [block.statements] [] (dispatcherSwitch pingContract)
          = if machine.callValue = 0 then
              execute machine [block.statements] [] (.expression (Ir.call ping.uniqueName [] none))
            else giveUp := by
  obtain ⟨block, added, -, routes⟩ := appendDispatcher_routes pingContract
    (Ir.blockOf [.functionDefinition ping.uniqueName [] [] .empty none]) (by decide +kernel)
  refine ⟨block, added, fun machine asked => ?_⟩
  have target : pingContract.target? [0x26, 0x12, 0x1f, 0xf0, 0x01] = some ping := by
    have answers : ping.answers [0x26, 0x12, 0x1f, 0xf0, 0x01] = true := by decide +kernel
    rw [Contract.target?, pingContract, List.find?_cons_of_neg (by decide), List.find?_cons_of_pos answers]
    rfl
  rw [routes, asked, target]
  exact if_congr (or_iff_right (by decide)) rfl rfl

end Execution

end ContractAsm

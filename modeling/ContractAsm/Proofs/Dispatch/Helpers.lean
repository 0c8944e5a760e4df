import ContractAsm.Proofs.Dispatch.Selector
import ContractAsm.Proofs.Lowering.Snippets

/-!
# What the helpers do

In a block that leaves the names of the instructions alone, the value check gives up if any
value was sent and otherwise does nothing, and the selector reader yields the first four
bytes of the call data.
-/

namespace ContractAsm.Execution

open Ir (Expression Statement Case Block)
open Lowering (IsNoValueBody IsSelectorBody number)
open Machine

variable {σ η : Type} {machine : Machine σ η} {scope : Scope} {locals : Locals}

/-- No enclosing block defines the name of an instruction that generated code relies on. -/
def Scope.KeepsBuiltins (scope : Scope) : Prop :=
  ∀ builtin : Builtin, definition? builtin.name scope = none

theorem instruct_builtin (builtin : Builtin) (values : List Word) :
    machine.instruct builtin.name values = machine.apply builtin values := by
  have found : Builtin.ofName? builtin.name = some builtin := by
    cases builtin <;> rfl
  rw [Machine.instruct, found]

theorem invoke_builtin (keeps : scope.KeepsBuiltins) (builtin : Builtin) (values : List Word) :
    invoke machine scope builtin.name values = machine.apply builtin values := by
  rw [invoke_instruction (keeps builtin), instruct_builtin]

theorem Scope.KeepsBuiltins.enter {statements : List Statement} (keeps : Scope.KeepsBuiltins scope)
    (none : ∀ name, statements.findSome? (Definition.of? name) = none) :
    Scope.KeepsBuiltins (statements :: scope) := by
  intro builtin
  rw [definition?_cons (none _)]
  exact keeps builtin

theorem evaluate_number (value : Text) (location : Option Location) :
    evaluate machine scope locals (number value location) = pure [.ofNat 256 (numberValue value)] := by
  rw [number, evaluate_literal]
  rfl

theorem evaluateEach_single {expression : Expression} {value : Word}
    (single : evaluate machine scope locals expression = pure [value]) :
    evaluateEach machine scope locals [expression] = pure [value] := by
  rw [evaluateEach_cons, evaluateEach_nil, single]
  rfl

theorem evaluateEach_pair {first second : Expression} {value other : Word}
    (left : evaluate machine scope locals first = pure [value])
    (right : evaluate machine scope locals second = pure [other]) :
    evaluateEach machine scope locals [first, second] = pure [value, other] := by
  rw [evaluateEach_cons, evaluateEach_single right, left]
  rfl

theorem evaluate_builtin (keeps : scope.KeepsBuiltins) (builtin : Builtin) {arguments : List Expression}
    {values : List Word} (given : evaluateEach machine scope locals arguments = pure values)
    (location : Option Location) :
    evaluate machine scope locals (.functionCall builtin.name arguments location)
      = machine.apply builtin values := by
  rw [evaluate_call, given, pure_bind, invoke_builtin keeps]

theorem executeAll_single (statement : Statement) :
    executeAll machine scope locals [statement] = execute machine scope locals statement := by
  rw [executeAll_cons]
  have last : ∀ result : Locals × Flow,
      (if result.2 = .onward then executeAll machine scope result.1 [] else pure result) = pure result := by
    rintro ⟨after, flow⟩
    rw [executeAll_nil]
    cases flow <;> rfl
  simp only [last]
  exact bind_pure _

theorem executeBlock_empty (location : Option Location) (kind : Option Json) :
    executeBlock machine scope locals (.mk [] location kind) = pure (locals, .onward) := by
  rw [executeBlock_mk, executeAll_nil, pure_bind]
  show pure (locals.leave locals, Flow.onward) = _
  rw [Locals.leave_self]

/-! ## The value check -/

def giveUp {α : Type} : Run σ η α := stop (.reverted 0 0)

theorem execute_revert (keeps : scope.KeepsBuiltins) (first second location : Option Location) :
    execute machine scope locals
      (.expression (.functionCall "revert" [number "0" first, number "0" second] location)) = giveUp := by
  have given : evaluateEach machine scope locals [number "0" first, number "0" second] = pure [0, 0] :=
    evaluateEach_pair (evaluate_number "0" first) (evaluate_number "0" second)
  have called := evaluate_builtin keeps .revert given location
  rw [execute_expression]
  exact congrArg (· >>= _) called

theorem execute_noValueSwitch {asked tested case empty : Option Location} {body : Block}
    (keeps : scope.KeepsBuiltins) (refuses : executeBlock machine scope locals body = giveUp)
    (default whole : Option Location) :
    execute machine scope locals
        (.switch (.functionCall "callvalue" [] asked)
          [.mk (some (number "0" tested)) (.mk [] empty) case, .mk none body default] whole)
      = if machine.callValue = 0 then pure (locals, .onward) else giveUp := by
  have value : evaluate machine scope locals (.functionCall "callvalue" [] asked)
      = pure [machine.callValue] := evaluate_builtin keeps .callvalue evaluateEach_nil asked
  have zero : machine.literal ⟨.number, "0", some Ir.wordType, tested⟩ = 0 := rfl
  rw [execute_switch, value, pure_bind, only_singleton, pure_bind, number, Machine.selected, zero]
  by_cases none : machine.callValue = 0
  · rw [if_pos none, if_pos none.symm]
    exact executeBlock_empty _ _
  · rw [if_neg none, if_neg (Ne.symm none)]
    exact refuses

theorem executeBlock_noValue {body : Block} (noValue : IsNoValueBody body) (keeps : scope.KeepsBuiltins) :
    executeBlock machine scope [] body
      = if machine.callValue = 0 then pure ([], .onward) else giveUp := by
  obtain ⟨⟩ := noValue
  rw [executeBlock_mk, executeAll_single, execute_noValueSwitch (keeps.enter fun _ => rfl)]
  · by_cases none : machine.callValue = 0
    · rw [if_pos none, pure_bind]
      rfl
    · rw [if_neg none]
      rfl
  · rw [executeBlock_mk, executeAll_single,
      execute_revert ((keeps.enter fun _ => rfl).enter fun _ => rfl)]
    rfl

/-- The value check gives up if any value was sent and does nothing otherwise. -/
theorem invoke_noValue {name : Text} {outer : Scope} {body : Block} (noValue : IsNoValueBody body)
    (defined : definition? name scope = some (⟨[], [], body⟩, outer)) (keeps : outer.KeepsBuiltins) :
    invoke machine scope name [] = if machine.callValue = 0 then pure [] else giveUp := by
  rw [invoke_defined defined rfl]
  show (executeBlock machine outer [] body >>= _) = _
  rw [executeBlock_noValue noValue keeps]
  by_cases none : machine.callValue = 0
  · rw [if_pos none, if_pos none, pure_bind]
    rfl
  · rw [if_neg none, if_neg none]
    rfl

/-! ## The selector reader -/

/-- The first four bytes of the call data as a number. -/
def Machine.selector (machine : Machine σ η) : Word :=
  .ofNat 256 (bytesValue (paddedBytes machine.callData 0 4))

/-- The first word of the call data, shifted down by 224 bits, is the number of its first
four bytes. -/
theorem selector_eq_div :
    BitVec.ofNat 256 (bytesValue (paddedBytes machine.callData 0 32)) / BitVec.ofNat 256 (2 ^ 224)
      = machine.selector := by
  have split := List.take_append_drop 4 (paddedBytes machine.callData 0 32)
  have rest : ((paddedBytes machine.callData 0 32).drop 4).length = 28 := by
    rw [List.length_drop, length_paddedBytes]
  have shifted := bytesValue_append_div ((paddedBytes machine.callData 0 32).take 4)
    ((paddedBytes machine.callData 0 32).drop 4)
  rw [split, rest, take_paddedBytes _ _ (by decide)] at shifted
  have bound := bytesValue_lt (paddedBytes machine.callData 0 32)
  rw [length_paddedBytes] at bound
  have whole : bytesValue (paddedBytes machine.callData 0 32) < 2 ^ 256 :=
    Nat.lt_of_lt_of_eq bound (by norm_num)
  have factor : 2 ^ 224 % 2 ^ 256 = 256 ^ 28 := by norm_num
  apply BitVec.eq_of_toNat_eq
  rw [BitVec.toNat_udiv, BitVec.toNat_ofNat, BitVec.toNat_ofNat, Machine.selector, BitVec.toNat_ofNat,
    ← shifted, factor, Nat.mod_eq_of_lt whole,
    Nat.mod_eq_of_lt (Nat.lt_of_le_of_lt (Nat.div_le_self _ _) whole)]

theorem evaluate_selector {offset loaded base exponent raised : Option Location}
    (keeps : scope.KeepsBuiltins) (divided : Option Location) :
    evaluate machine scope locals
        (.functionCall "div" [
          .functionCall "calldataload" [number "0" offset] loaded,
          .functionCall "exp" [number "2" base, number "224" exponent] raised] divided)
      = pure [machine.selector] := by
  have word : evaluate machine scope locals (.functionCall "calldataload" [number "0" offset] loaded)
      = pure [.ofNat 256 (bytesValue (paddedBytes machine.callData 0 32))] :=
    evaluate_builtin keeps .calldataload (evaluateEach_single (evaluate_number "0" offset)) loaded
  have power : evaluate machine scope locals
      (.functionCall "exp" [number "2" base, number "224" exponent] raised)
      = pure [.ofNat 256 (2 ^ 224)] :=
    evaluate_builtin keeps .exp
      (evaluateEach_pair (evaluate_number "2" base) (evaluate_number "224" exponent)) raised
  rw [← selector_eq_div]
  exact evaluate_builtin keeps .div (evaluateEach_pair word power) divided

theorem executeBlock_selector {body : Block} (selector : IsSelectorBody body) (keeps : scope.KeepsBuiltins) :
    executeBlock machine scope [(("sig" : Text), 0)] body
      = pure ([(("sig" : Text), machine.selector)], Flow.onward) := by
  obtain ⟨⟩ := selector
  rw [executeBlock_mk, executeAll_single, execute_assignment, evaluate_selector (keeps.enter fun _ => rfl),
    pure_bind]
  rfl

/-- The selector reader yields the first four bytes of the call data. -/
theorem invoke_selector {name : Text} {outer : Scope} {body : Block} (selector : IsSelectorBody body)
    (defined : definition? name scope = some (⟨[], [⟨"sig", some Ir.wordType⟩], body⟩, outer))
    (keeps : outer.KeepsBuiltins) :
    invoke machine scope name [] = pure [machine.selector] := by
  rw [invoke_defined defined rfl]
  show (executeBlock machine outer [(("sig" : Text), 0)] body >>= _) = _
  rw [executeBlock_selector selector keeps, pure_bind]
  rfl

end ContractAsm.Execution

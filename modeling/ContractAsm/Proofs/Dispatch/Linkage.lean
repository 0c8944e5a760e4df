import ContractAsm.Proofs.Dispatch.Distinctness

/-!
# Lowered contracts are linked

The block of a contract holds the definitions of its functions in the order of declaration,
the two helpers, and the switch, and nothing else. The definitions are made from all functions
and the cases from those that can be called from outside; still every case calls the
definition of the very function whose selector it tests for, and nothing is called that the
block does not define, `revert` apart.
-/

namespace ContractAsm.Ir

/-! ## Callees -/

mutual

def Expression.callees : Expression → List Text
  | .functionCall name arguments _ => name :: calleesEach arguments
  | .literal _ => []
  | .identifier _ _ => []
  | .unrecognised _ => []

def calleesEach : List Expression → List Text
  | [] => []
  | expression :: rest => expression.callees ++ calleesEach rest

end

mutual

/-- The names of the functions that a statement calls. What inline assembly calls is left out;
generated code has none of its own. -/
def Statement.callees : Statement → List Text
  | .expression expression => expression.callees
  | .variableDeclaration _ none _ => []
  | .variableDeclaration _ (some value) _ => value.callees
  | .assignment _ value _ => value.callees
  | .functionDefinition _ _ _ body _ => body.callees
  | .case case => case.callees
  | .switch expression cases _ => expression.callees ++ casesCallees cases
  | .ifThen condition body _ => condition.callees ++ body.callees
  | .forLoop pre condition post body _ =>
      pre.callees ++ (condition.callees ++ (post.callees ++ body.callees))
  | .breakLoop _ => []
  | .continueLoop _ => []
  | .block block => block.callees
  | .inlineAssembly _ _ => []
  | .unrecognised _ => []

def Case.callees : Case → List Text
  | .mk none body _ => body.callees
  | .mk (some value) body _ => value.callees ++ body.callees
  | .other statement => statement.callees

def Block.callees : Block → List Text
  | .mk statements _ _ => statementsCallees statements

def statementsCallees : List Statement → List Text
  | [] => []
  | statement :: rest => statement.callees ++ statementsCallees rest

def casesCallees : List Case → List Text
  | [] => []
  | case :: rest => case.callees ++ casesCallees rest

end

theorem casesCallees_append (first second : List Case) :
    casesCallees (first ++ second) = casesCallees first ++ casesCallees second := by
  induction first with
  | nil => rfl
  | cons case rest ih =>
    rw [List.cons_append, casesCallees, casesCallees, ih, List.append_assoc]

end ContractAsm.Ir

namespace ContractAsm.Lowering

open Execution (definedNames)
open Source (Function Contract)

/-! ## Layout -/

/-- The statement defines the function under its unique name and at its place. -/
def IsDefinitionOf (function : Function) (statement : Ir.Statement) : Prop :=
  ∃ body, statement = .functionDefinition function.uniqueName [] [] body (some function.location)

/-- The case with this number is that of the function. It tests for the function's selector,
checks the value unless the function accepts it, and calls the name by which the block defines
the function: the definition stands where the function is declared. -/
def IsRouted (contract : Contract) (statements : List Ir.Statement) (tested : List Ir.Case)
    (number : Nat) (function : Function) : Prop :=
  let called (name : Text) : Ir.Statement := .expression (Ir.call name [] none)
  ∃ position name body,
    contract.functions[position]? = some function
      ∧ (contract.functions.take position).countP Function.isExternallyCallable = number
      ∧ statements[position]? = some (.functionDefinition name [] [] body (some function.location))
      ∧ tested[number]? = some (.mk
          (some (.literal ⟨.number, selectorOf function.signature, some "u256", none⟩))
          (.mk (if function.isPayable then [called name] else [called noValueCheck, called name]) none)
          none)

/-- How the statements of a lowered contract follow each other, and what its switch calls. -/
structure IsLinked (contract : Contract) (statements definitions : List Ir.Statement)
    (valueGuard reader : Ir.Statement) (tested : List Ir.Case) (otherwise : Ir.Block) : Prop where
  layout : statements = definitions ++ [valueGuard, reader,
    .switch (.functionCall selectorReader [] none) (tested ++ [.mk none otherwise none]) none]
  definitions : List.Forall₂ IsDefinitionOf contract.functions definitions
  valueGuard : ∃ body location, IsNoValueBody body
    ∧ valueGuard = .functionDefinition noValueCheck [] [] body location
  reader : ∃ body location, IsSelectorBody body
    ∧ reader = .functionDefinition selectorReader [] [⟨"sig", some "u256"⟩] body location
  cases : tested.length = (externalFunctions contract).length
  routed : ∀ number function, (externalFunctions contract)[number]? = some function →
    IsRouted contract statements tested number function
  callees : ∀ name ∈ (Ir.Statement.switch (.functionCall selectorReader [] none)
      (tested ++ [.mk none otherwise none]) none).callees,
    name ≠ "revert" → name ∈ definedNames statements

/-! ## Positions -/

/-- An item that is kept stands somewhere in the list, behind as many kept items as there are
before it among those that are kept. -/
theorem position_of_filter {α : Type} {p : α → Bool} {items : List α} {number : Nat} {item : α}
    (found : (items.filter p)[number]? = some item) :
    ∃ position : Nat, items[position]? = some item ∧ (items.take position).countP p = number := by
  induction items generalizing number with
  | nil => simp at found
  | cons first rest ih =>
    by_cases kept : p first = true
    · rw [List.filter_cons_of_pos kept] at found
      cases number with
      | zero => exact ⟨0, found, rfl⟩
      | succ number =>
        obtain ⟨position, stands, before⟩ := ih found
        refine ⟨position + 1, stands, ?_⟩
        rw [List.take_succ_cons, List.countP_cons_of_pos kept, before]
    · rw [List.filter_cons_of_neg kept] at found
      obtain ⟨position, stands, before⟩ := ih found
      refine ⟨position + 1, stands, ?_⟩
      rw [List.take_succ_cons, List.countP_cons_of_neg kept, before]

theorem isRouted_statementsWith (helpers : Helpers) {contract : Contract} {number : Nat}
    {function : Function} (external : (externalFunctions contract)[number]? = some function) :
    IsRouted contract (statementsWith helpers contract) ((externalFunctions contract).map callCase)
      number function := by
  obtain ⟨position, declared, before⟩ := position_of_filter external
  have defined : (contract.functions.map definitionOf)[position]? = some (definitionOf function) := by
    rw [List.getElem?_map, declared, Option.map_some]
  have stands : (statementsWith helpers contract)[position]? = some (definitionOf function) := by
    have inside := (List.getElem?_eq_some_iff.mp defined).choose
    rw [statementsWith, List.append_assoc, List.getElem?_append_left inside, defined]
  have tested : ((externalFunctions contract).map callCase)[number]? = some (callCase function) := by
    rw [List.getElem?_map, external, Option.map_some]
  refine ⟨position, function.uniqueName, _, declared, before, stands, ?_⟩
  rw [tested, callCase, callBody]
  cases function.isPayable <;> rfl

/-! ## Callees of the switch -/

theorem callees_callBody (function : Function) (name : Text) :
    (callBody function name).callees = if function.isPayable then [name] else [noValueCheck, name] := by
  unfold callBody
  cases function.isPayable <;> rfl

section

variable {contract : Contract} {name : Text}

theorem called_of_callBody {function : Function} {target : Text}
    (called : name ∈ (callBody function target).callees) : name = noValueCheck ∨ name = target := by
  rw [callees_callBody] at called
  split at called
  · exact .inr (List.mem_singleton.mp called)
  · simpa using called

theorem called_of_callCases {functions : List Function}
    (called : name ∈ Ir.casesCallees (functions.map callCase)) :
    name = noValueCheck ∨ ∃ function ∈ functions, name = function.uniqueName := by
  induction functions with
  | nil => contradiction
  | cons function rest ih =>
    rcases List.mem_append.mp called with first | others
    · rcases called_of_callBody first with guard | target
      · exact .inl guard
      · exact .inr ⟨function, List.mem_cons_self, target⟩
    · rcases ih others with guard | ⟨other, member, target⟩
      · exact .inl guard
      · exact .inr ⟨other, List.mem_cons_of_mem _ member, target⟩

/-- The default calls the first fallback function or gives up. -/
theorem called_of_otherwiseCase (called : name ∈ (otherwiseCase contract).callees) :
    name = "revert" ∨ name = noValueCheck ∨ ∃ function ∈ contract.functions, name = function.uniqueName := by
  unfold otherwiseCase at called
  cases declared : contract.fallback? with
  | none =>
    rw [declared] at called
    exact .inl (List.mem_singleton.mp called)
  | some fallback =>
    rw [declared] at called
    have member := List.mem_of_find?_eq_some declared
    have named := Function.uniqueName_fallback (List.find?_some declared)
    rcases called_of_callBody called with guard | target
    · exact .inr (.inl guard)
    · exact .inr (.inr ⟨fallback, member, target.trans named.symm⟩)

theorem defined_of_called (helpers : Helpers) (called : name ∈ (dispatcherSwitch contract).callees)
    (other : name ≠ "revert") : name ∈ definedNames (statementsWith helpers contract) := by
  have functions : ∀ function ∈ contract.functions,
      function.uniqueName ∈ contract.functions.map Function.uniqueName :=
    fun function member => List.mem_map_of_mem member
  rw [definedNames_statementsWith, List.mem_append]
  rcases List.mem_cons.mp called with rfl | inside
  · exact .inr (by decide)
  · have inside : name ∈ Ir.casesCallees (dispatchCases contract) := inside
    rw [dispatchCases, Ir.casesCallees_append, List.mem_append] at inside
    rcases inside with tested | default
    · rcases called_of_callCases tested with rfl | ⟨function, external, rfl⟩
      · exact .inr (by decide)
      · exact .inl (functions function (List.mem_of_mem_filter external))
    · have last : name ∈ (otherwiseCase contract).callees := by
        rwa [Ir.casesCallees, Ir.casesCallees, List.append_nil] at default
      rcases called_of_otherwiseCase last with gaveUp | rfl | ⟨function, declared, rfl⟩
      · exact absurd gaveUp other
      · exact .inr (by decide)
      · exact .inl (functions function declared)

end

/-! ## Lowered contracts -/

def otherwiseBody (contract : Contract) : Ir.Block :=
  match contract.fallback? with
  | some fallback => callBody fallback fallbackName
  | none => Ir.blockOf [.expression (Ir.revert none)]

theorem isLinked_statementsWith (helpers : Helpers) (contract : Contract) :
    ∃ valueGuard reader,
      IsLinked contract (statementsWith helpers contract) (contract.functions.map definitionOf)
        valueGuard reader ((externalFunctions contract).map callCase) (otherwiseBody contract) := by
  refine ⟨.functionDefinition noValueCheck [] [] helpers.noValueBody helpers.noValueLocation,
    .functionDefinition selectorReader [] [⟨"sig", some "u256"⟩] helpers.selectorBody
      helpers.selectorLocation, ?_, ?_, ⟨_, _, helpers.noValue, rfl⟩, ⟨_, _, helpers.selector, rfl⟩,
    ?_, ?_, ?_⟩
  · rw [statementsWith, List.append_assoc]
    rfl
  · rw [List.forall₂_map_right_iff]
    exact List.forall₂_same.mpr fun function _ => ⟨_, rfl⟩
  · rw [List.length_map]
  · exact fun number function external => isRouted_statementsWith helpers external
  · exact fun name called other => defined_of_called helpers called other

/-- The block of a lowered contract is laid out in the order of declaration and ends with the
switch, whose cases call the functions that they test for, and which calls nothing that is not
defined. -/
theorem lowerContract_isLinked {registry after : Registry} {contract : Contract}
    {lowered : LoweredContract}
    (done : (lowerContract registry contract).result = .ok (lowered, after)) :
    ∃ definitions valueGuard reader tested otherwise,
      IsLinked contract lowered.block.statements definitions valueGuard reader tested otherwise := by
  obtain ⟨-, helpers, rfl⟩ := isLoweredTo_of_lowerContract done
  obtain ⟨valueGuard, reader, linked⟩ := isLinked_statementsWith helpers contract
  exact ⟨_, valueGuard, reader, _, _, linked⟩

/-- A private function, a public one that accepts no value, the fallback, and an external one
that accepts value. -/
def mixedContract : Contract :=
  let function (name : Text) (kind : Function.Kind) (visibility : Source.Visibility)
      (mutability : Source.Mutability) : Function :=
    ⟨name, kind, visibility, mutability, true, [], [], [], some ⟨[.throw plainPlace], plainPlace⟩,
      plainPlace⟩
  ⟨"M", "m:M", .contract, [], [], [], [], [],
    [function "p" .ordinary .own .nonpayable, function "q" .ordinary .anyone .reading,
      function "" .fallback .anyone .nonpayable, function "r" .ordinary .outside .payable], plainPlace⟩

theorem lowerContract_isLinked_mixed :
    ∃ lowered after, (lowerContract .empty mixedContract).result = .ok (lowered, after)
      ∧ ∃ definitions valueGuard reader tested otherwise,
        IsLinked mixedContract lowered.block.statements definitions valueGuard reader tested otherwise := by
  have clean : violations .empty mixedContract = [] := rfl
  obtain ⟨⟨lowered, after⟩, done⟩ := (reports_contract .empty mixedContract).ok_iff.mpr clean
  exact ⟨lowered, after, done, lowerContract_isLinked done⟩

end ContractAsm.Lowering

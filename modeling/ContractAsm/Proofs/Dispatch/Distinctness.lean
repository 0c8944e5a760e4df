import ContractAsm.Proofs.Dispatch.Names
import ContractAsm.Proofs.Dispatch.Routing
import ContractAsm.Proofs.Lowering.Outcome
import Mathlib.Data.List.Duplicate

/-!
# Functions are told apart

In a lowered contract no function is mistaken for another, as long as the source keeps them
apart: a name is defined twice exactly if two ordinary functions are called alike, and a case
stands twice exactly if the selectors of two functions agree that can be called from outside.
Any other function is reached through its own case.
-/

namespace ContractAsm.Lowering

open Execution (Machine definedNames definedName? selectorBytes paddedBytes selectorOf_eq_iff)
open Source (Function Contract)

/-! ## Lists with repetitions -/

section

variable {α β γ : Type} [DecidableEq β] [DecidableEq γ] (items : List α)

theorem duplicate_map_iff (value : α → β) (key : α → γ) (item : α)
    (agree : ∀ other ∈ items, value other = value item ↔ key other = key item) :
    List.Duplicate (value item) (items.map value) ↔ List.Duplicate (key item) (items.map key) := by
  have same : (items.map value).count (value item) = (items.map key).count (key item) := by
    simp only [List.count_eq_countP, List.countP_map]
    apply List.countP_congr
    intro other member
    simpa using agree other member
  rw [List.duplicate_iff_two_le_count, List.duplicate_iff_two_le_count, same]

theorem eq_of_not_duplicate (key : α → β) (first second : α)
    (alone : ¬ List.Duplicate (key first) (items.map key)) (here : first ∈ items) (there : second ∈ items)
    (same : key second = key first) : second = first := by
  have short : (items.filter fun item => key item == key first).length ≤ 1 := by
    rw [List.duplicate_iff_two_le_count, List.count_eq_countP, List.countP_map,
      List.countP_eq_length_filter] at alone
    exact Nat.le_of_lt_succ (Nat.lt_of_not_le alone)
  have kept : first ∈ items.filter fun item => key item == key first := by
    simp [here]
  have alsoKept : second ∈ items.filter fun item => key item == key first := by
    simp [there, same]
  obtain ⟨only, found⟩ := List.length_eq_one_iff.mp (Nat.le_antisymm short (List.length_pos_of_mem kept))
  rw [found, List.mem_singleton] at kept alsoKept
  rw [kept, alsoKept]

end

/-! ## Functions without violations -/

section

variable {function other : Function}

theorem not_creation_of_clean (clean : headViolations function = []) : ¬ function.isCreation = true := by
  intro creation
  simp [headViolations, failureIf, creation] at clean

theorem parameters_of_clean (clean : headViolations function = []) : function.parameters = [] := by
  unfold headViolations at clean
  simp only [List.append_eq_nil_iff] at clean
  have unrefused := clean.1.2
  cases declared : function.parameters with
  | nil => rfl
  | cons => simp [failureIf, declared] at unrefused

theorem signature_of_clean (clean : headViolations function = []) :
    function.signature = signatureOf function.name [] := by
  rw [Function.signature, parameters_of_clean clean, List.map_nil]

/-- Whether a function is neither the fallback nor a constructor. -/
def isOrdinary (function : Function) : Bool := function.kind = .ordinary

theorem not_fallback_of_ordinary (ordinary : isOrdinary function = true) : ¬ function.isFallback = true := by
  have kind : function.kind = .ordinary := of_decide_eq_true ordinary
  simp [Function.isFallback, kind]

theorem ordinary_of_clean (clean : headViolations function = []) (named : ¬ function.isFallback = true) :
    isOrdinary function = true := by
  have existing := not_creation_of_clean clean
  unfold isOrdinary Function.isFallback Function.isCreation at *
  cases kind : function.kind with
  | ordinary => rfl
  | fallback => simp [kind] at named
  | creation => simp [kind] at existing

/-- Only an ordinary function of the same name shares the name of an ordinary function. -/
theorem uniqueName_eq_iff_name (clean : headViolations function = []) (alsoClean : headViolations other = [])
    (ordinary : isOrdinary function = true) :
    other.uniqueName = function.uniqueName ↔ other.name = function.name ∧ isOrdinary other = true := by
  have named := not_fallback_of_ordinary ordinary
  by_cases fallback : other.isFallback = true
  · have apart := Function.uniqueName_ne_fallbackName named
    have extraordinary : ¬ isOrdinary other = true := fun also => not_fallback_of_ordinary also fallback
    rw [Function.uniqueName_fallback fallback]
    exact ⟨fun same => absurd same.symm apart, fun both => absurd both.2 extraordinary⟩
  · rw [Function.uniqueName_eq_iff fallback named, signature_of_clean clean, signature_of_clean alsoClean]
    constructor
    · exact fun same => ⟨same.1, ordinary_of_clean alsoClean fallback⟩
    · intro both
      rw [both.1]
      exact ⟨rfl, rfl⟩

end

/-! ## Names -/

def ordinaryNames (contract : Contract) : List Text :=
  (contract.functions.filter isOrdinary).map Function.name

theorem definedNames_statementsWith (helpers : Helpers) (contract : Contract) :
    definedNames (statementsWith helpers contract)
      = contract.functions.map Function.uniqueName ++ [noValueCheck, selectorReader] := by
  have functions : definedNames (contract.functions.map definitionOf)
      = contract.functions.map Function.uniqueName := by
    have each : definedName? ∘ definitionOf = some ∘ Function.uniqueName := rfl
    rw [definedNames, List.filterMap_map, each, List.filterMap_eq_map]
  unfold definedNames at functions ⊢
  rw [statementsWith, List.append_assoc, List.filterMap_append, functions]
  rfl

/-- An ordinary function is defined as often as its name is declared. -/
theorem count_uniqueName {function : Function} {contract : Contract}
    (clean : ∀ function ∈ contract.functions, headViolations function = [])
    (member : function ∈ contract.functions) (ordinary : isOrdinary function = true) :
    (contract.functions.map Function.uniqueName).count function.uniqueName
      = (ordinaryNames contract).count function.name := by
  unfold ordinaryNames
  simp only [List.count_eq_countP, List.countP_map, List.countP_filter]
  apply List.countP_congr
  intro other declared
  simpa using uniqueName_eq_iff_name (clean _ member) (clean _ declared) ordinary

theorem count_fallbackName_le_one {functions : List Function}
    (single : Validation.SingleFallback functions) :
    (functions.map Function.uniqueName).count fallbackName ≤ 1 := by
  induction single with
  | nil => simp
  | @cons function rest unique single ih =>
    by_cases fallback : function.isFallback = true
    · have absent : fallbackName ∉ rest.map Function.uniqueName := by
        intro mentioned
        obtain ⟨other, member, same⟩ := List.mem_map.mp mentioned
        have named : ¬ other.isFallback = true := fun also => unique other member ⟨fallback, also⟩
        exact Function.uniqueName_ne_fallbackName named same
      rw [List.map_cons, Function.uniqueName_fallback fallback, List.count_cons_self,
        List.count_eq_zero_of_not_mem absent]
    · have apart := Function.uniqueName_ne_fallbackName fallback
      rw [List.map_cons, List.count_cons_of_ne apart]
      exact ih

/-- A name is defined twice exactly if it is that of an ordinary function whose name is
declared twice. -/
theorem duplicate_definedNames_iff (helpers : Helpers) {contract : Contract}
    (clean : ∀ function ∈ contract.functions, headViolations function = [])
    (single : Validation.SingleFallback contract.functions) (name : Text) :
    List.Duplicate name (definedNames (statementsWith helpers contract))
      ↔ ∃ function ∈ contract.functions, isOrdinary function = true ∧ function.uniqueName = name
        ∧ List.Duplicate function.name (ordinaryNames contract) := by
  simp only [List.duplicate_iff_two_le_count, definedNames_statementsWith, List.count_append]
  constructor
  · intro twice
    have helper : [noValueCheck, selectorReader].count name ≤ 1 :=
      List.nodup_iff_count_le_one.mp (by decide) name
    have some : 0 < (contract.functions.map Function.uniqueName).count name := by omega
    obtain ⟨function, member, rfl⟩ := List.mem_map.mp (List.count_pos_iff.mp some)
    have apart := function.uniqueName_ne_helper
    have alone : [noValueCheck, selectorReader].count function.uniqueName = 0 := by
      simp [List.count_eq_zero, apart]
    by_cases fallback : function.isFallback = true
    · have once := count_fallbackName_le_one single
      rw [Function.uniqueName_fallback fallback] at twice alone
      omega
    · have ordinary := ordinary_of_clean (clean _ member) fallback
      have times := count_uniqueName clean member ordinary
      exact ⟨function, member, ordinary, rfl, by omega⟩
  · rintro ⟨function, member, ordinary, rfl, twice⟩
    have times := count_uniqueName clean member ordinary
    omega

/-! ## Cases -/

def caseValue? : Ir.Case → Option Text
  | .mk (some (.literal literal)) _ _ => some literal.value
  | _ => none

def caseValues (cases : List Ir.Case) : List Text := cases.filterMap caseValue?

def externalFunctions (contract : Contract) : List Function :=
  contract.functions.filter Function.isExternallyCallable

def externalSelectors (contract : Contract) : List (List UInt8) :=
  (externalFunctions contract).map fun function => selectorBytes function.signature

theorem caseValues_dispatchCases (contract : Contract) :
    caseValues (dispatchCases contract)
      = (externalFunctions contract).map fun function => selectorOf function.signature := by
  have each : caseValue? ∘ callCase = some ∘ fun function => selectorOf function.signature := rfl
  have others : [otherwiseCase contract].filterMap caseValue? = [] := rfl
  rw [caseValues, dispatchCases, List.filterMap_append, List.filterMap_map, each, List.filterMap_eq_map,
    others, List.append_nil, externalFunctions]

theorem duplicate_selectorOf_iff (contract : Contract) (function : Function) :
    List.Duplicate (selectorOf function.signature) (caseValues (dispatchCases contract))
      ↔ List.Duplicate (selectorBytes function.signature) (externalSelectors contract) := by
  rw [caseValues_dispatchCases, externalSelectors]
  apply duplicate_map_iff (externalFunctions contract) (fun function => selectorOf function.signature)
    (fun function => selectorBytes function.signature) function
  intro other _
  exact selectorOf_eq_iff other.signature function.signature

/-- A selector stands in two cases exactly if it is that of two functions. -/
theorem duplicate_caseValues_iff (contract : Contract) (value : Text) :
    List.Duplicate value (caseValues (dispatchCases contract))
      ↔ ∃ function ∈ externalFunctions contract, selectorOf function.signature = value
        ∧ List.Duplicate (selectorBytes function.signature) (externalSelectors contract) := by
  constructor
  · intro twice
    have stands := twice.mem
    rw [caseValues_dispatchCases] at stands
    obtain ⟨function, member, rfl⟩ := List.mem_map.mp stands
    exact ⟨function, member, rfl, (duplicate_selectorOf_iff contract function).mp twice⟩
  · rintro ⟨function, member, rfl, twice⟩
    exact (duplicate_selectorOf_iff contract function).mpr twice

/-- There is a call that asks for the function, and the switch gives every such call to the
case of the function. -/
def IsReached (cases : List Ir.Case) (function : Function) : Prop :=
  function.answers (selectorBytes function.signature) = true
    ∧ ∀ (σ η : Type) (machine : Machine σ η), function.answers machine.callData = true →
      machine.selected machine.selector cases = some (callBody function function.uniqueName)

theorem answers_selectorBytes {function : Function} (callable : function.isExternallyCallable = true) :
    function.answers (selectorBytes function.signature) = true := by
  have four := Execution.length_selectorBytes function.signature
  have whole : paddedBytes (selectorBytes function.signature) 0 4 = selectorBytes function.signature := by
    simp [paddedBytes, List.take_of_length_le, four]
  simp [Function.answers, callable, whole]

/-- A function is reached whose selector no other has. -/
theorem isReached_of_selector {contract : Contract} {function : Function}
    (external : function ∈ externalFunctions contract)
    (alone : ¬ List.Duplicate (selectorBytes function.signature) (externalSelectors contract)) :
    IsReached (dispatchCases contract) function := by
  rw [externalSelectors] at alone
  obtain ⟨member, callable⟩ := List.mem_filter.mp external
  refine ⟨answers_selectorBytes callable, fun σ η machine asked => ?_⟩
  have chosen : contract.functions.find? (Function.answers machine.callData) = some function := by
    cases found : contract.functions.find? (Function.answers machine.callData) with
    | none => exact absurd asked (List.find?_eq_none.mp found function member)
    | some other =>
      have answers := List.find?_some found
      have declared := List.mem_of_find?_eq_some found
      simp only [Function.answers, Bool.and_eq_true, beq_iff_eq] at asked answers
      have alsoExternal : other ∈ externalFunctions contract := List.mem_filter.mpr ⟨declared, answers.1⟩
      have same : selectorBytes other.signature = selectorBytes function.signature := by
        rw [answers.2, asked.2]
      have only := eq_of_not_duplicate (externalFunctions contract)
        (fun function => selectorBytes function.signature) function other
      rw [only alone external alsoExternal same]
  rw [Execution.selected_dispatchCases, Contract.target?, chosen, Option.some_or]

/-! ## Accepted units -/

/-- What is told apart in the block of a contract, and what is not. -/
structure Separates (contract : Contract) (lowered : LoweredContract) : Prop where
  definitions (name : Text) : List.Duplicate name (definedNames lowered.block.statements)
    ↔ ∃ function ∈ contract.functions, isOrdinary function = true ∧ function.uniqueName = name
      ∧ List.Duplicate function.name (ordinaryNames contract)
  dispatch : ∃ cases,
    lowered.block.statements.getLast? = some (.switch (Ir.call selectorReader [] none) cases none)
      ∧ (∀ value, List.Duplicate value (caseValues cases)
        ↔ ∃ function ∈ externalFunctions contract, selectorOf function.signature = value
          ∧ List.Duplicate (selectorBytes function.signature) (externalSelectors contract))
      ∧ ∀ function ∈ externalFunctions contract,
        ¬ List.Duplicate (selectorBytes function.signature) (externalSelectors contract)
          → IsReached cases function

theorem separates_loweredWith (helpers : Helpers) {contract : Contract}
    (clean : ∀ function ∈ contract.functions, headViolations function = [])
    (single : Validation.SingleFallback contract.functions) :
    Separates contract (loweredWith helpers contract) where
  definitions := duplicate_definedNames_iff helpers clean single
  dispatch := by
    refine ⟨dispatchCases contract, ?_, duplicate_caseValues_iff contract, ?_⟩
    · exact List.getLast?_concat
    · exact fun function => isReached_of_selector


def IsLoweredTo (contract : Contract) (lowered : LoweredContract) : Prop :=
  (∀ function ∈ contract.functions, headViolations function = [])
    ∧ ∃ helpers, lowered = loweredWith helpers contract

theorem isLoweredTo_of_lowerContract {registry after : Registry} {contract : Contract}
    {lowered : LoweredContract}
    (done : (lowerContract registry contract).result = .ok (lowered, after)) :
    IsLoweredTo contract lowered := by
  obtain ⟨clean, helpers, whole⟩ := (reports_contract registry contract).held done
  constructor
  · intro function member
    have own := List.flatMap_eq_nil_iff.mp (List.append_eq_nil_iff.mp clean).2 function member
    exact (List.append_eq_nil_iff.mp own).1
  · exact ⟨helpers, congrArg Prod.fst whole⟩

theorem isLoweredTo_of_lowerContracts {registry : Registry} {contracts : List Contract}
    {results : List LoweredContract} (done : (lowerContracts registry contracts).result = .ok results) :
    List.Forall₂ IsLoweredTo contracts results := by
  induction contracts generalizing registry results with
  | nil =>
    cases done
    exact .nil
  | cons contract rest ih =>
    rw [result_lowerContracts_cons] at done
    obtain ⟨value, first, done⟩ := ok_of_bind done
    obtain ⟨more, others, rfl⟩ := ok_of_map done
    exact .cons (isLoweredTo_of_lowerContract first) (ih others)

open Validation (ValidSourceUnit)

/-- In every contract of an accepted unit that is lowered, only ordinary functions of one name
are defined under one name, and only functions called from outside whose selectors agree share
a case. Every other function that can be called from outside is reached through its own. -/
theorem lowerUnit_separates {document : Json} {source : ValidSourceUnit} {registry : Registry}
    {contracts : List LoweredContract} (accepted : Validation.sourceUnit document = .valid (some source))
    (done : (lowerUnit registry source.tree).result = .ok contracts) :
    List.Forall₂ Separates source.tree.contracts contracts := by
  obtain ⟨found, same, -, -, clean⟩ := Validation.sourceUnit_valid accepted
  obtain rfl := Option.some.inj same
  have single := Validation.singleFallback_of_sourceUnitFindings clean
  have each := isLoweredTo_of_lowerContracts done
  rw [List.forall₂_iff_get] at each ⊢
  refine ⟨each.1, fun index here there => ?_⟩
  obtain ⟨unviolated, helpers, whole⟩ := each.2 index here there
  rw [whole]
  exact separates_loweredWith helpers unviolated (single _ (List.get_mem _ _))

/-! ## Functions that are not told apart -/

def plainPlace : Location := ⟨.ofNat 0, .ofNat 9, none⟩

def plainFunction (name : Text) : Function :=
  ⟨name, .ordinary, .anyone, .payable, true, [], [], [], some ⟨[], plainPlace⟩, plainPlace⟩

def plainContract (names : List Text) : Contract :=
  ⟨"C", "a:C", .contract, [], [], [], [], [], names.map plainFunction, plainPlace⟩

def plainDocument (names : List Text) : Json :=
  let place : Json := .object [("start", .nat 0), ("end", .nat 9)]
  let body : Json := .object [("kind", .string "block"), ("statements", .array []), ("location", place)]
  let function (name : Text) : Json := .object [("kind", .string "function"), ("name", .string name),
    ("functionKind", .string "function"), ("visibility", .string "public"),
    ("stateMutability", .string "payable"), ("implemented", .bool true), ("modifiers", .array []),
    ("parameters", .array []), ("returnParameters", .array []), ("body", body), ("location", place)]
  let contract : Json := .object [("kind", .string "contract"), ("name", .string "C"),
    ("fullyQualifiedName", .string "a:C"), ("contractKind", .string "contract"),
    ("baseContracts", .array []), ("structs", .array []), ("enums", .array []), ("events", .array []),
    ("modifiers", .array []), ("functions", .array (names.map function)), ("location", place)]
  .object [("kind", .string "sourceUnit"), ("path", .string "a"), ("contracts", .array [contract])]

def plainUnit (names : List Text) : Source.SourceUnit := ⟨"a", [plainContract names]⟩

theorem violations_plainContract (names : List Text) : violations .empty (plainContract names) = [] := by
  have functions : (plainContract names).functions.flatMap functionViolations = [] := by
    rw [List.flatMap_eq_nil_iff]
    intro function member
    obtain ⟨name, -, rfl⟩ := List.mem_map.mp member
    rfl
  rw [violations, functions]
  rfl

theorem lowerUnit_plainUnit (names : List Text) :
    ∃ helpers,
      (lowerUnit .empty (plainUnit names)).result = .ok [loweredWith helpers (plainContract names)] := by
  have reports := reports_contract .empty (plainContract names)
  obtain ⟨value, done⟩ := reports.ok_iff.mpr (violations_plainContract names)
  obtain ⟨-, helpers, whole⟩ := reports.held done
  rw [whole] at done
  refine ⟨helpers, ?_⟩
  rw [lowerUnit, plainUnit, result_lowerContracts_cons, done]
  rfl

/-- Two functions of one name, and two whose selectors agree. -/
def clashingNames : List Text := ["f", "f", "eexo", "gfah"]

theorem sourceUnit_clashing : Validation.sourceUnit (plainDocument clashingNames)
    = .valid (some ⟨plainDocument clashingNames, plainUnit clashingNames⟩) := by
  cbv

theorem externalSelectors_clashing : externalSelectors (plainContract clashingNames)
    = [selectorBytes "f()", selectorBytes "f()", selectorBytes "eexo()", selectorBytes "gfah()"] := by
  have signatures : clashingNames.map (fun name => (plainFunction name).signature)
      = ["f()", "f()", "eexo()", "gfah()"] := by decide
  have external : externalFunctions (plainContract clashingNames) = clashingNames.map plainFunction := rfl
  rw [externalSelectors, external]
  have composed := congrArg (List.map selectorBytes) signatures
  rwa [List.map_map] at composed ⊢

theorem selectorOf_eexo : selectorOf "eexo()" = "0x0e171a1c" := by decide +kernel

theorem selectorOf_gfah : selectorOf "gfah()" = "0x0e171a1c" := by decide +kernel

theorem duplicate_selectorBytes_clashing :
    List.Duplicate (selectorBytes "gfah()") (externalSelectors (plainContract clashingNames)) := by
  have same : selectorBytes "eexo()" = selectorBytes "gfah()" := by
    rw [← selectorOf_eq_iff, selectorOf_eexo, selectorOf_gfah]
  rw [externalSelectors_clashing, same]
  have last : List.Duplicate (selectorBytes "gfah()") [selectorBytes "gfah()", selectorBytes "gfah()"] :=
    List.Mem.duplicate_cons_self List.mem_cons_self
  exact (last.duplicate_cons _).duplicate_cons _

/-- Nothing keeps a name from being defined twice, or a selector from standing in two cases:
the unit is accepted and lowered. -/
theorem lowerUnit_confuses_clashing :
    Validation.sourceUnit (plainDocument clashingNames)
        = .valid (some ⟨plainDocument clashingNames, plainUnit clashingNames⟩)
      ∧ ∃ lowered, (lowerUnit .empty (plainUnit clashingNames)).result = .ok [lowered]
        ∧ ¬ (definedNames lowered.block.statements).Nodup
        ∧ ∃ cases,
          lowered.block.statements.getLast? = some (.switch (Ir.call selectorReader [] none) cases none)
            ∧ List.Duplicate ("0x0e171a1c" : Text) (caseValues cases) := by
  obtain ⟨helpers, done⟩ := lowerUnit_plainUnit clashingNames
  refine ⟨sourceUnit_clashing, _, done, ?_, dispatchCases (plainContract clashingNames),
    List.getLast?_concat, ?_⟩
  · have names : definedNames (loweredWith helpers (plainContract clashingNames)).block.statements = _ :=
      definedNames_statementsWith helpers (plainContract clashingNames)
    rw [names, plainContract, clashingNames, List.map_cons, List.map_cons, List.map_cons, List.map_cons,
      List.nodup_append, List.nodup_cons]
    intro distinct
    exact distinct.1.1 List.mem_cons_self
  · have signature : (plainFunction "gfah").signature = "gfah()" := by decide
    have external : plainFunction "gfah" ∈ externalFunctions (plainContract clashingNames) := by
      have member : ("gfah" : Text) ∈ clashingNames := by decide
      exact List.mem_filter.mpr ⟨List.mem_map_of_mem member, rfl⟩
    rw [duplicate_caseValues_iff, ← selectorOf_gfah, ← signature]
    refine ⟨plainFunction "gfah", external, rfl, ?_⟩
    rw [signature]
    exact duplicate_selectorBytes_clashing

/-- The functions `f` share a definition name, and `eexo` and `gfah` a case; nothing else is
shared. -/
theorem lowerUnit_separates_clashing :
    ∃ lowered, (lowerUnit .empty (plainUnit clashingNames)).result = .ok [lowered]
      ∧ Separates (plainContract clashingNames) lowered := by
  obtain ⟨helpers, done⟩ := lowerUnit_plainUnit clashingNames
  have separates := lowerUnit_separates sourceUnit_clashing done
  exact ⟨_, done, (List.forall₂_cons.mp separates).1⟩

end ContractAsm.Lowering

import ContractAsm.Lowering.Contract
import ContractAsm.Proofs.Asm.Obstacles
import ContractAsm.Proofs.Lowering.Snippets
import ContractAsm.Proofs.Source.Leaves

/-!
# What is violated, and what is reported

`violations` lists everything in a contract that lowering refuses, in the order of the
checks and not only up to the first that fails: what the contract itself violates, a name
that is taken, and function by function its own restrictions and the leaves of its body.
Lowering fails exactly if the list has a head, and reports it. Otherwise it yields the block
that `Contract.loweredWith` spells out.
-/

namespace ContractAsm.Lowering

open Source (Function Contract)

/-! ## Violations -/

def failureIf (broken : Bool) (failure : Failure) : List Failure := if broken then [failure] else []

/-- An obstacle in assembly as a failure, at its own place or else at the given one. -/
def obstacleFailure (fallback : Location) : Asm.Obstacle → Failure
  | .legacy form location => .unsupported (.legacyAssembly form) (location.getD fallback)
  | .unrecognised => .unrecognised

/-- What is violated by a statement that is no block. -/
def leafViolations : Source.Statement → List Failure
  | .other kind location => [.unsupported (.statement kind) location]
  | .inlineAssembly operations location => operations.obstacles.map (obstacleFailure location)
  | .unrecognised _ => [.unrecognised]
  | .block _ _ => []
  | .throw _ => []

/-- What a function violates, its body apart. -/
def headViolations (function : Function) : List Failure :=
  let refused (what : Unsupported) : Failure := .unsupported what function.location
  failureIf function.isCreation (refused .constructors)
    ++ failureIf (!function.implemented || function.body.isNone) (refused .unimplementedFunction)
    ++ failureIf (!function.modifiers.isEmpty) (refused .modifiers)
    ++ failureIf (!function.parameters.isEmpty) (refused .parameters)
    ++ failureIf (!function.returnParameters.isEmpty) (refused .returnParameters)

def functionViolations (function : Function) : List Failure :=
  headViolations function ++ function.leaves.flatMap leafViolations

/-- What a contract itself violates, its functions apart. -/
def contractViolations (contract : Contract) : List Failure :=
  let refused (what : Unsupported) : Failure := .unsupported what contract.location
  failureIf (contract.kind != .contract) (refused .contractKind)
    ++ failureIf (!contract.baseContracts.isEmpty) (refused .inheritance)
    ++ failureIf (!contract.structs.isEmpty || !contract.enums.isEmpty) (refused .userDefinedTypes)
    ++ failureIf (!contract.events.isEmpty) (refused .events)
    ++ failureIf (!contract.modifiers.isEmpty) (refused .modifiers)

/-- Everything that keeps a contract from being lowered into a registry, in the order of the
checks. -/
def violations (registry : Registry) (contract : Contract) : List Failure :=
  contractViolations contract
    ++ failureIf (registry.has contract.qualifiedName)
      (.inconsistent (.registeredTwice contract.qualifiedName))
    ++ contract.functions.flatMap functionViolations

/-! ## What is lowered -/

/-- What a leaf becomes if it violates nothing. -/
def leafStatement? : Source.Statement → Option Ir.Statement
  | .throw location => some (.expression (Ir.revert (some location)))
  | .inlineAssembly operations location => some (.inlineAssembly operations (some location))
  | _ => none

/-- The definition of a function: its leaves in a row. -/
def definitionOf (function : Function) : Ir.Statement :=
  .functionDefinition function.uniqueName [] []
    (.mk (function.leaves.filterMap leafStatement?) none) (some function.location)

/-- The statements of a lowered contract: the functions as they are declared, the helpers of
the dispatcher, and the dispatcher. -/
def statementsWith (helpers : Helpers) (contract : Contract) : List Ir.Statement :=
  contract.functions.map definitionOf ++ helpers.statements ++ [dispatcherSwitch contract]

def loweredWith (helpers : Helpers) (contract : Contract) : LoweredContract :=
  ⟨contract.qualifiedName, .mk (statementsWith helpers contract) (some contract.location)⟩

/-! ## Programs that report the first violation -/

/-- The program fails with the first of the violations, and yields what is wanted if there is
none. -/
inductive Reports {α : Type} (wanted : α → Prop) : List Failure → Except Failure α → Prop where
  | ok {value : α} (held : wanted value) : Reports wanted [] (.ok value)
  | refused (first : Failure) (others : List Failure) : Reports wanted (first :: others) (.error first)

section

variable {α β : Type} {inner : α → Prop} {wanted : β → Prop} {violated others : List Failure}

theorem Reports.bind {first : Except Failure α} {next : α → Except Failure β}
    (reports : Reports inner violated first)
    (rest : ∀ value, inner value → Reports wanted others (next value)) :
    Reports wanted (violated ++ others) (first >>= next) := by
  cases reports with
  | ok held => exact rest _ held
  | refused first more => exact .refused first (more ++ others)

theorem Reports.next {first : Except Failure α} {next : α → Except Failure β}
    (reports : Reports inner [] first)
    (rest : ∀ value, inner value → Reports wanted violated (next value)) :
    Reports wanted violated (first >>= next) := reports.bind rest

theorem Reports.last {first : Except Failure α} {next : α → Except Failure β}
    (reports : Reports inner violated first)
    (rest : ∀ value, inner value → Reports wanted [] (next value)) :
    Reports wanted violated (first >>= next) := by
  rw [← List.append_nil violated]
  exact reports.bind rest

theorem Reports.ok_iff {result : Except Failure β} (reports : Reports wanted violated result) :
    (∃ value, result = .ok value) ↔ violated = [] := by
  cases reports with
  | ok held => exact ⟨fun _ => rfl, fun _ => ⟨_, rfl⟩⟩
  | refused first more => exact ⟨nofun, nofun⟩

theorem Reports.error_iff {result : Except Failure β} (reports : Reports wanted violated result)
    (failure : Failure) : result = .error failure ↔ violated.head? = some failure := by
  cases reports with
  | ok held => exact ⟨nofun, nofun⟩
  | refused first more =>
    rw [List.head?_cons, Option.some.injEq, Except.error.injEq]

theorem Reports.held {result : Except Failure β} {value : β} (reports : Reports wanted violated result)
    (done : result = .ok value) : violated = [] ∧ wanted value := by
  cases reports with
  | ok held =>
    cases done
    exact ⟨rfl, held⟩
  | refused => contradiction

end

theorem Traced.result_bind {α β : Type} (first : Traced α) (next : α → Traced β) :
    (first >>= next).result = first.result >>= fun value => (next value).result := by
  show (Traced.bind first next).result = _
  rw [Traced.bind]
  cases first.result with
  | ok => rfl
  | error => rfl

theorem Traced.result_ofExcept {α : Type} (result : Except Failure α) :
    (ofExcept result).result = result := rfl

theorem reports_tell (line : Text) : Reports (fun _ => True) [] (Traced.tell line).result := .ok trivial

/-! ## Statements -/

theorem reports_refuseLegacy (operations : Asm.Block) (fallback : Location) :
    Reports (fun _ => True) (operations.obstacles.map (obstacleFailure fallback))
      (refuseLegacy operations fallback) := by
  have found := operations.obstacle?_eq_head?
  unfold refuseLegacy
  rw [found]
  cases operations.obstacles with
  | nil => exact .ok trivial
  | cons obstacle rest =>
    cases obstacle with
    | legacy => exact .refused _ _
    | unrecognised => exact .refused _ _

def FunctionDraft.with (draft : FunctionDraft) (statements : List Ir.Statement) : FunctionDraft :=
  { draft with statements := draft.statements ++ statements }

theorem FunctionDraft.with_with (draft : FunctionDraft) (first second : List Ir.Statement) :
    (draft.with first).with second = draft.with (first ++ second) := by
  simp only [FunctionDraft.with, List.append_assoc]

theorem reports_append {draft : FunctionDraft} (active : draft.state = .active) (statement : Ir.Statement) :
    Reports (· = draft.with [statement]) [] (draft.append statement) := by
  rw [FunctionDraft.append, active]
  exact .ok (by rw [FunctionDraft.with, active])

mutual

/-- A draft takes what the leaves of a statement become. -/
theorem reports_statement {draft : FunctionDraft} (active : draft.state = .active)
    (statement : Source.Statement) :
    Reports (· = draft.with (statement.leaves.filterMap leafStatement?))
      (statement.leaves.flatMap leafViolations) (lowerStatement draft statement) := by
  cases statement with
  | block statements =>
    rw [lowerStatement]
    exact reports_statements active statements
  | throw location =>
    rw [lowerStatement]
    exact reports_append active _
  | inlineAssembly operations location =>
    rw [lowerStatement]
    have carried : Reports (· = .inlineAssembly operations (some location))
        (operations.obstacles.map (obstacleFailure location)) (carryAssembly operations location) :=
      (reports_refuseLegacy operations location).last fun _ _ => .ok rfl
    have violated : (Source.Statement.inlineAssembly operations location).leaves.flatMap leafViolations
        = operations.obstacles.map (obstacleFailure location) := List.append_nil _
    rw [violated]
    refine carried.last fun lowered same => ?_
    rw [same]
    exact reports_append active _
  | other kind location =>
    rw [lowerStatement]
    exact .refused _ _
  | unrecognised node =>
    rw [lowerStatement]
    exact .refused _ _

theorem reports_statements {draft : FunctionDraft} (active : draft.state = .active)
    (statements : List Source.Statement) :
    Reports (· = draft.with ((Source.leavesOf statements).filterMap leafStatement?))
      ((Source.leavesOf statements).flatMap leafViolations) (lowerStatements draft statements) := by
  cases statements with
  | nil =>
    rw [lowerStatements]
    exact .ok (by rw [FunctionDraft.with, Source.leavesOf, List.filterMap_nil, List.append_nil])
  | cons statement rest =>
    rw [lowerStatements, Source.leavesOf, List.flatMap_append, List.filterMap_append]
    refine (reports_statement active statement).bind fun middle taken => ?_
    have still : (draft.with (statement.leaves.filterMap leafStatement?)).state = .active := active
    rw [taken, ← FunctionDraft.with_with]
    exact reports_statements still rest

end

/-! ## Functions -/

theorem reports_admitFunction (function : Function) :
    Reports (fun body => function.body = some body) (headViolations function) (admitFunction function) := by
  unfold admitFunction functionBody headViolations
  cases function.isCreation with
  | true => exact .refused _ _
  | false =>
    cases function.implemented with
    | false => exact .refused _ _
    | true =>
      cases function.body with
      | none => exact .refused _ _
      | some body =>
        cases function.modifiers with
        | cons => exact .refused _ _
        | nil =>
          cases function.parameters with
          | cons => exact .refused _ _
          | nil =>
            cases function.returnParameters with
            | cons => exact .refused _ _
            | nil => exact .ok rfl

theorem reports_function (function : Function) :
    Reports (· = definitionOf function) (functionViolations function) (lowerFunction function).result := by
  rw [lowerFunction, Traced.result_bind]
  refine (reports_admitFunction function).bind fun body found => ?_
  rw [Traced.result_bind, Source.Function.leaves_eq found]
  refine (reports_tell _).next fun _ _ => ?_
  have active : (FunctionDraft.start function.uniqueName function.location).state = .active := rfl
  refine (reports_statements active body.statements).last fun draft taken => ?_
  rw [taken, definitionOf, Source.Function.leaves_eq found]
  exact .ok rfl

theorem reports_functions (functions : List Function) :
    Reports (· = functions.map definitionOf) (functions.flatMap functionViolations)
      (lowerFunctions functions).result := by
  induction functions with
  | nil => exact .ok rfl
  | cons function rest ih =>
    rw [lowerFunctions, Traced.result_bind, List.flatMap_cons]
    refine (reports_function function).bind fun definition first => ?_
    rw [Traced.result_bind]
    refine ih.last fun others more => ?_
    exact .ok (by rw [first, more, List.map_cons])

/-! ## Contracts -/

theorem reports_admitContract (contract : Contract) :
    Reports (fun _ => True) (contractViolations contract) (admitContract contract) := by
  unfold admitContract contractViolation? contractViolations
  cases contract.kind with
  | interface => exact .refused _ _
  | library => exact .refused _ _
  | contract =>
    cases contract.baseContracts with
    | cons => exact .refused _ _
    | nil =>
      cases contract.structs with
      | cons => exact .refused _ _
      | nil =>
        cases contract.enums with
        | cons => exact .refused _ _
        | nil =>
          cases contract.events with
          | cons => exact .refused _ _
          | nil =>
            cases contract.modifiers with
            | cons => exact .refused _ _
            | nil => exact .ok trivial

/-- What a contract is lowered to, and the registry with it behind the others. -/
def IsLowered (registry : Registry) (contract : Contract) (lowered : LoweredContract × Registry) : Prop :=
  ∃ helpers, lowered = (loweredWith helpers contract, ⟨registry.entries ++ [loweredWith helpers contract]⟩)

theorem reports_appendDispatcher (contract : Contract) (body : Ir.Block) :
    Reports (fun block => ∃ helpers : Helpers,
        block = (body.append helpers.statements).append [dispatcherSwitch contract]) []
      (appendDispatcher contract body) := by
  obtain ⟨helpers, added⟩ := appendDispatcher_ok contract body
  rw [added]
  exact .ok ⟨helpers, rfl⟩

theorem reports_register {registry : Registry} {name : Text} (free : ¬ registry.has name = true)
    (block : Ir.Block) :
    Reports (· = ⟨registry.entries ++ [⟨name, block⟩]⟩) [] (registry.register name block) := by
  rw [Registry.register, if_neg free]
  exact .ok rfl

theorem reports_contract (registry : Registry) (contract : Contract) :
    Reports (IsLowered registry contract) (violations registry contract)
      (lowerContract registry contract).result := by
  -- From here on the dispatcher is only a name, or checking the proof would run it.
  obtain ⟨dispatch, named⟩ : ∃ dispatch, dispatch = appendDispatcher contract := ⟨_, rfl⟩
  have dispatches := reports_appendDispatcher contract
  rw [← named] at dispatches
  rw [lowerContract, ← named, Traced.result_bind, violations, List.append_assoc]
  refine (reports_admitContract contract).bind fun _ _ => ?_
  by_cases taken : registry.has contract.qualifiedName = true
  · simp only [if_pos taken, failureIf, Traced.result_bind, Traced.result_ofExcept]
    exact .refused _ _
  · simp only [if_neg taken, failureIf, Traced.result_bind, Traced.result_ofExcept, List.nil_append]
    refine (reports_tell _).next fun _ _ => ?_
    refine (reports_functions contract.functions).last fun definitions made => ?_
    refine (dispatches _).next fun block built => ?_
    obtain ⟨helpers, whole⟩ := built
    refine (reports_register taken block).next fun after added => ?_
    have same : block = .mk (statementsWith helpers contract) (some contract.location) := by
      rw [whole, made]
      rfl
    rw [added, same]
    exact .ok ⟨helpers, rfl⟩

/-! ## Kinds of violations -/

def IsUnsupported (failure : Failure) : Prop := ∃ what location, failure = .unsupported what location

theorem isUnsupported_of_failureIf {broken : Bool} {what : Unsupported} {location : Location}
    {failure : Failure} (member : failure ∈ failureIf broken (.unsupported what location)) :
    IsUnsupported failure := by
  cases broken with
  | true => exact ⟨what, location, List.mem_singleton.mp member⟩
  | false => contradiction

theorem isUnsupported_of_contract {contract : Contract} {failure : Failure}
    (member : failure ∈ contractViolations contract) : IsUnsupported failure := by
  simp only [contractViolations, List.mem_append] at member
  rcases member with (((member | member) | member) | member) | member
  all_goals exact isUnsupported_of_failureIf member

theorem isUnsupported_of_head {function : Function} {failure : Failure}
    (member : failure ∈ headViolations function) : IsUnsupported failure := by
  simp only [headViolations, List.mem_append] at member
  rcases member with (((member | member) | member) | member) | member
  all_goals exact isUnsupported_of_failureIf member

theorem isUnsupported_of_leaf {leaf : Source.Statement} (recognised : leaf.Recognised) {failure : Failure}
    (member : failure ∈ leafViolations leaf) : IsUnsupported failure := by
  cases leaf with
  | other kind location => exact ⟨_, _, List.mem_singleton.mp member⟩
  | inlineAssembly operations location =>
    obtain ⟨obstacle, listed, rfl⟩ := List.mem_map.mp member
    obtain ⟨form, place, rfl⟩ := Asm.Block.Recognised.obstacles recognised obstacle listed
    exact ⟨_, _, rfl⟩
  | unrecognised => contradiction
  | block | throw => contradiction

/-- In a tree without unknown nodes nothing is violated but that a name is free and that the
source keeps to the supported subset. -/
theorem violation_cases {registry : Registry} {contract : Contract} (recognised : contract.Recognised)
    {failure : Failure} (member : failure ∈ violations registry contract) :
    (registry.has contract.qualifiedName = true
        ∧ failure = .inconsistent (.registeredTwice contract.qualifiedName))
      ∨ IsUnsupported failure := by
  rcases List.mem_append.mp member with member | member
  · rcases List.mem_append.mp member with member | member
    · exact .inr (isUnsupported_of_contract member)
    · cases taken : registry.has contract.qualifiedName with
      | true =>
        rw [taken] at member
        exact .inl ⟨rfl, List.mem_singleton.mp member⟩
      | false =>
        rw [taken] at member
        contradiction
  · obtain ⟨function, declared, member⟩ := List.mem_flatMap.mp member
    rcases List.mem_append.mp member with member | member
    · exact .inr (isUnsupported_of_head member)
    · obtain ⟨leaf, stands, member⟩ := List.mem_flatMap.mp member
      exact .inr (isUnsupported_of_leaf ((recognised function declared).leaves stands) member)

/-- The report of a violation: a name that is taken is an inconsistency, anything else is
unsupported, with its restriction and its place. -/
def IsReported (contract : Contract) (failure : Failure) : Prop :=
  ∃ error, failure.error? = some error
    ∧ ((failure = .inconsistent (.registeredTwice contract.qualifiedName)
        ∧ error.code = .internalInconsistency)
      ∨ ∃ what location, failure = .unsupported what location ∧ error.code = .unsupportedFeature
        ∧ error.restriction = some what.restriction ∧ error.location = some location)

theorem isReported_violation {registry : Registry} {contract : Contract} (recognised : contract.Recognised)
    {failure : Failure} (member : failure ∈ violations registry contract) : IsReported contract failure := by
  rcases violation_cases recognised member with ⟨-, rfl⟩ | ⟨what, location, rfl⟩
  · exact ⟨_, rfl, .inl ⟨rfl, rfl⟩⟩
  · exact ⟨_, rfl, .inr ⟨what, location, rfl, rfl, rfl, rfl⟩⟩

/-- A contract is lowered exactly if it violates nothing, and otherwise the first violation is
what lowering fails with. Each violation in a tree without unknown nodes is reported with its
restriction and its place. -/
theorem lowerContract_reports_first (registry : Registry) (contract : Contract) :
    ((∃ lowered, (lowerContract registry contract).result = .ok lowered)
        ↔ violations registry contract = [])
      ∧ (∀ failure, (lowerContract registry contract).result = .error failure
        ↔ (violations registry contract).head? = some failure)
      ∧ (contract.Recognised → ∀ failure ∈ violations registry contract, IsReported contract failure) := by
  have reports := reports_contract registry contract
  refine ⟨reports.ok_iff, reports.error_iff, fun recognised failure member => ?_⟩
  exact isReported_violation recognised member

/-- The second function of the contract holds a stack assignment, inside a switch in assembly
inside a block, and a return behind it. -/
def tangledContract : Contract :=
  let place (start stop : Nat) : Location := .ofOffsets start stop "t"
  let function (name : Text) (statements : List Source.Statement) : Function :=
    ⟨name, .ordinary, .outside, .payable, true, [], [], [], some ⟨statements, place 0 90⟩, place 0 90⟩
  let assembly : Asm.Block := .mk [
    .switch (.identifier "x" none) [.mk none (.mk [.legacy .stackAssignment "y" none] none)] none] none
  ⟨"T", "t:T", .contract, [], [], [], [], [],
    [function "f" [.throw (place 1 2)],
      function "g" [.block [.inlineAssembly assembly (place 3 7)] (place 2 8), .other .return (place 8 9)]],
    place 0 99⟩

theorem lowerContract_reports_first_tangled :
    tangledContract.Recognised
      ∧ (lowerContract .empty tangledContract).result
        = .error (.unsupported (.legacyAssembly .stackAssignment) (.ofOffsets 3 7 "t"))
      ∧ IsReported tangledContract
        (.unsupported (.legacyAssembly .stackAssignment) (.ofOffsets 3 7 "t")) := by
  have recognised : tangledContract.Recognised := by
    rintro function (_ | ⟨_, _ | ⟨_, ⟨⟩⟩⟩) _ ⟨⟩
    · exact ⟨trivial, trivial⟩
    · exact ⟨⟨⟨⟨trivial, ⟨trivial, trivial, trivial⟩, trivial⟩, trivial⟩, trivial⟩, trivial, trivial⟩
  obtain ⟨-, first, reported⟩ := lowerContract_reports_first .empty tangledContract
  have head : (violations .empty tangledContract).head?
      = some (.unsupported (.legacyAssembly .stackAssignment) (.ofOffsets 3 7 "t")) := rfl
  exact ⟨recognised, (first _).mpr head, reported recognised _ (List.mem_of_mem_head? head)⟩

end ContractAsm.Lowering

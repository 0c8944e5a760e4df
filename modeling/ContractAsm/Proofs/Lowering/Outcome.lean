import ContractAsm.Proofs.Lowering.Violations
import ContractAsm.Proofs.Validation.Acceptance
import Mathlib

/-!
# How lowering can fail

A recognised contract whose qualified name is not registered is lowered, or it is refused
because it uses something unsupported. No draft is used after it was committed, no name is
registered twice, no snippet fails to read, and no node of unknown kind is met.
-/

namespace ContractAsm.Lowering

open Source (Contract)

/-- The result is as wanted, or the source is refused as unsupported. -/
inductive LowersTo {α : Type} (wanted : α → Prop) : Except Failure α → Prop where
  | ok {value : α} (held : wanted value) : LowersTo wanted (.ok value)
  | refused (what : Unsupported) (location : Location) :
      LowersTo wanted (.error (.unsupported what location))

theorem LowersTo.map {α β : Type} {inner : α → Prop} {wanted : β → Prop} {f : α → β}
    {first : Except Failure α} (lowers : LowersTo inner first)
    (rest : ∀ value, inner value → wanted (f value)) : LowersTo wanted (first.map f) := by
  cases lowers with
  | ok held => exact .ok (rest _ held)
  | refused what location => exact .refused what location

theorem Reports.lowersTo {α : Type} {wanted : α → Prop} {violated : List Failure} {result : Except Failure α}
    (reports : Reports wanted violated result) (only : ∀ failure ∈ violated, IsUnsupported failure) :
    LowersTo wanted result := by
  cases reports with
  | ok held => exact .ok held
  | refused first others =>
    obtain ⟨what, location, rfl⟩ := only first List.mem_cons_self
    exact .refused what location

section

variable {α β : Type} {first : Except Failure α} {result : β}

theorem ok_of_bind {next : α → Except Failure β} (done : first >>= next = .ok result) :
    ∃ value, first = .ok value ∧ next value = .ok result := by
  cases first with
  | error => contradiction
  | ok value => exact ⟨value, rfl, done⟩

theorem ok_of_map {f : α → β} (done : first.map f = .ok result) :
    ∃ value, first = .ok value ∧ result = f value := by
  cases first with
  | error => contradiction
  | ok value =>
    cases done
    exact ⟨value, rfl, rfl⟩

end

/-! ## Contracts -/

theorem lowersTo_contract {registry : Registry} {contract : Contract} (recognised : contract.Recognised)
    (fresh : contract.qualifiedName ∉ registry.names) :
    LowersTo (IsLowered registry contract) (lowerContract registry contract).result := by
  refine (reports_contract registry contract).lowersTo fun failure member => ?_
  rcases violation_cases recognised member with ⟨taken, -⟩ | unsupported
  · exact absurd (List.contains_iff_mem.mp taken) fresh
  · exact unsupported

theorem result_lowerContracts_cons (registry : Registry) (contract : Contract) (rest : List Contract) :
    (lowerContracts registry (contract :: rest)).result
      = (lowerContract registry contract).result >>= fun first =>
          (lowerContracts first.2 rest).result.map (first.1 :: ·) := by
  rw [lowerContracts]
  cases lowerContract registry contract with
  | mk lines result =>
    cases result with
    | error => rfl
    | ok => rfl

/-- Contracts with different names that are not registered are lowered in their order. -/
theorem lowersTo_contracts {registry : Registry} {contracts : List Contract}
    (recognised : ∀ contract ∈ contracts, contract.Recognised)
    (distinct : (registry.names ++ contracts.map Contract.qualifiedName).Nodup) :
    LowersTo (fun lowered => lowered.map LoweredContract.name = contracts.map Contract.qualifiedName)
      (lowerContracts registry contracts).result := by
  induction contracts generalizing registry with
  | nil => exact .ok rfl
  | cons contract rest ih =>
    rw [List.map_cons] at distinct
    have fresh : contract.qualifiedName ∉ registry.names := by
      intro taken
      exact (List.nodup_append.mp distinct).2.2 _ taken _ List.mem_cons_self rfl
    have first := lowersTo_contract (recognised contract List.mem_cons_self) fresh
    rw [result_lowerContracts_cons]
    generalize (lowerContract registry contract).result = outcome at first
    cases first with
    | refused what location => exact .refused what location
    | @ok lowered held =>
      obtain ⟨helpers, whole⟩ := held
      have named : lowered.1.name = contract.qualifiedName := by
        rw [whole]
        rfl
      have added : lowered.2.names = registry.names ++ [contract.qualifiedName] := by
        rw [whole]
        exact List.map_append
      have apart : (lowered.2.names ++ rest.map Contract.qualifiedName).Nodup := by
        rw [added, List.append_assoc]
        exact distinct
      have others := ih (fun other mem => recognised other (List.mem_cons_of_mem _ mem)) apart
      refine others.map fun more names => ?_
      rw [List.map_cons, List.map_cons, named, names]

/-! ## Accepted documents -/

open Validation (ValidSourceUnit)

/-- A document that is accepted is lowered, contract by contract under the qualified names, or
it is refused with a report that names the restriction and the place. -/
theorem lowerUnit_of_valid {document : Json} {result : Option ValidSourceUnit}
    (accepted : Validation.sourceUnit document = .valid result) :
    ∃ source, result = some source ∧ Source.SourceUnit.ofJson? source.document = some source.tree
      ∧ ((∃ contracts, (lowerUnit .empty source.tree).result = .ok contracts
          ∧ contracts.map LoweredContract.name = source.tree.contracts.map Contract.qualifiedName)
        ∨ ∃ failure error restriction location, (lowerUnit .empty source.tree).result = .error failure
          ∧ failure.error? = some error ∧ error.code = .unsupportedFeature
          ∧ error.restriction = some restriction ∧ error.location = some location) := by
  obtain ⟨source, found, read, recognised, clean⟩ := Validation.sourceUnit_valid accepted
  have distinct : (Registry.empty.names ++ source.tree.contracts.map Contract.qualifiedName).Nodup :=
    Validation.distinct_of_sourceUnitFindings clean
  have lowers := lowersTo_contracts recognised distinct
  refine ⟨source, found, read, ?_⟩
  rw [lowerUnit]
  cases outcome : (lowerContracts .empty source.tree.contracts).result with
  | ok contracts =>
    rw [outcome] at lowers
    cases lowers with
    | ok names => exact .inl ⟨contracts, rfl, names⟩
  | error failure =>
    rw [outcome] at lowers
    cases lowers with
    | refused what location =>
      exact .inr ⟨_, _, what.restriction, location, rfl, rfl, rfl, rfl, rfl⟩

def throwing : Json :=
  let place : Json := .object [("start", .nat 0), ("end", .nat 9)]
  let body : Json := .object [("kind", .string "block"),
    ("statements", .array [.object [("kind", .string "throw"), ("location", place)]]), ("location", place)]
  let function : Json := .object [("kind", .string "function"), ("name", .string "f"),
    ("functionKind", .string "function"), ("visibility", .string "public"),
    ("stateMutability", .string "payable"), ("implemented", .bool true), ("modifiers", .array []),
    ("parameters", .array []), ("returnParameters", .array []), ("body", body), ("location", place)]
  let contract : Json := .object [("kind", .string "contract"), ("name", .string "C"),
    ("fullyQualifiedName", .string "a:C"), ("contractKind", .string "contract"),
    ("baseContracts", .array []), ("structs", .array []), ("enums", .array []), ("events", .array []),
    ("modifiers", .array []), ("functions", .array [function]), ("location", place)]
  .object [("kind", .string "sourceUnit"), ("path", .string "a"), ("contracts", .array [contract])]

theorem lowerUnit_of_valid_throwing :
    ∃ source, Validation.sourceUnit throwing = .valid (some source)
      ∧ ((∃ contracts, (lowerUnit .empty source.tree).result = .ok contracts
          ∧ contracts.map LoweredContract.name = source.tree.contracts.map Contract.qualifiedName)
        ∨ ∃ failure error restriction location, (lowerUnit .empty source.tree).result = .error failure
          ∧ failure.error? = some error ∧ error.code = .unsupportedFeature
          ∧ error.restriction = some restriction ∧ error.location = some location) := by
  have valid : (Validation.sourceUnit throwing).isValid = true := by cbv
  cases accepted : Validation.sourceUnit throwing with
  | valid result =>
    obtain ⟨source, rfl, -, outcome⟩ := lowerUnit_of_valid accepted
    exact ⟨source, rfl, outcome⟩
  | invalid | failed =>
    rw [accepted] at valid
    contradiction

end ContractAsm.Lowering

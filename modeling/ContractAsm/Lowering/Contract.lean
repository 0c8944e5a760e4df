import ContractAsm.Lowering.Dispatch
import ContractAsm.Lowering.Function
import ContractAsm.Lowering.Registry

/-!
# Lowering contracts

A contract becomes one block: a definition for every function in the order of declaration,
the helpers of the dispatcher, and the dispatcher. The first restriction that is violated
ends the lowering; the block is registered only when it is complete.
-/

namespace ContractAsm.Lowering

open Source (Contract SourceUnit)

/-! ## Restrictions -/

/-- The first restriction that a contract itself violates, its functions apart. -/
def contractViolation? (contract : Contract) : Option Unsupported :=
  if contract.kind ≠ .contract then some .contractKind
  else if contract.baseContracts ≠ [] then some .inheritance
  else if contract.structs ≠ [] ∨ contract.enums ≠ [] then some .userDefinedTypes
  else if contract.events ≠ [] then some .events
  else if contract.modifiers ≠ [] then some .modifiers
  else none

def admitContract (contract : Contract) : Except Failure Unit :=
  match contractViolation? contract with
  | some what => .error (.unsupported what contract.location)
  | none => .ok ()

/-! ## Contracts -/

def lowerContract (registry : Registry) (contract : Contract) : Traced (LoweredContract × Registry) := do
  Traced.ofExcept (admitContract contract)
  let name := contract.qualifiedName
  if registry.has name then Traced.ofExcept (.error (.inconsistent (.registeredTwice name)))
  Traced.tell ("lowering contract " ++ name)
  let definitions ← lowerFunctions contract.functions
  let block ← Traced.ofExcept (appendDispatcher contract (.mk definitions (some contract.location)))
  let registry ← Traced.ofExcept (registry.register name block)
  return (⟨name, block⟩, registry)

structure Lowered where
  lines : List Text
  registry : Registry
  result : Except Failure (List LoweredContract)

/-- Lowers contracts in their order. Those before a failing one stay registered. -/
def lowerContracts (registry : Registry) : List Contract → Lowered
  | [] => ⟨[], registry, .ok []⟩
  | contract :: rest =>
      match lowerContract registry contract with
      | ⟨lines, .error failure⟩ => ⟨lines, registry, .error failure⟩
      | ⟨lines, .ok (first, registry)⟩ =>
          let others := lowerContracts registry rest
          ⟨lines ++ others.lines, others.registry, others.result.map (first :: ·)⟩

def lowerUnit (registry : Registry) (source : SourceUnit) : Lowered :=
  lowerContracts registry source.contracts

end ContractAsm.Lowering

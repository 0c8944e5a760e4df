import ContractAsm.Ir.Document
import ContractAsm.Lowering.Failure

/-!
# Registries

A registry holds the blocks of the contracts lowered so far under their qualified names, in
the order of registration. Entries are only ever added, and no name is added twice.
-/

namespace ContractAsm.Lowering

structure LoweredContract where
  name : Text
  block : Ir.Block

def LoweredContract.toJson (contract : LoweredContract) : Json :=
  .object [("name", .string contract.name), ("block", contract.block.toJson)]

def LoweredContract.ofJson? (document : Json) : Option LoweredContract := do
  return ⟨← document.textAt? "name", ← Ir.Block.ofJson? (← document.member? "block")⟩

structure Registry where
  entries : List LoweredContract

namespace Registry

def empty : Registry := ⟨[]⟩

instance : Inhabited Registry := ⟨empty⟩

def names (registry : Registry) : List Text := registry.entries.map LoweredContract.name

def size (registry : Registry) : Nat := registry.entries.length

def has (registry : Registry) (name : Text) : Bool := registry.names.contains name

def get? (registry : Registry) (name : Text) : Option Ir.Block :=
  (registry.entries.find? fun entry => entry.name == name).map LoweredContract.block

def register (registry : Registry) (name : Text) (block : Ir.Block) : Except Failure Registry :=
  if registry.has name then .error (.inconsistent (.registeredTwice name))
  else .ok ⟨registry.entries ++ [⟨name, block⟩]⟩

end Registry

end ContractAsm.Lowering

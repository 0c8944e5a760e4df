import ContractAsm.Ir.Printer
import ContractAsm.Json.Writer
import ContractAsm.Lowering.Registry

/-!
# Listings

Lowered contracts as text, each under a comment line with its name, or as a document.
-/

namespace ContractAsm.Lowering.Listing

def section? (contract : LoweredContract) : Option Text := do
  return "// " ++ contract.name ++ "\n" ++ (← contract.block.print?)

/-- The contracts with an empty line between any two, if every node is recognised. -/
def text? (contracts : List LoweredContract) : Option Text := do
  return Text.join "\n\n" (← contracts.mapM section?)

def document (contracts : List Json) : String := Json.pretty (.array contracts)

end ContractAsm.Lowering.Listing

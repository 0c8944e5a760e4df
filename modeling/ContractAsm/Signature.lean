import ContractAsm.Ir.Basic
import ContractAsm.Keccak
import ContractAsm.Source.Basic

/-!
# Selectors

A function is known to its callers by the first four bytes of the hash of its canonical
signature, and inside the IR by its name together with the whole hash.
-/

namespace ContractAsm

/-- `name(type1,type2,...)` with canonical type names and no blanks. -/
def signatureOf (name : Text) (types : List Text) : Text :=
  name ++ "(" ++ Text.join "," types ++ ")"

def hashOf (signature : Text) : Text := Keccak.hex signature.toString

/-- The first four bytes of the hash, as a hexadecimal number. -/
def selectorOf (signature : Text) : Text :=
  "0x" ++ String.ofList ((Keccak.hexDigits signature.toString).take 8)

def fallbackName : Text := "fallback"

namespace Source.Function

def signature (function : Function) : Text :=
  signatureOf function.name (function.parameters.map Parameter.type)

def selector (function : Function) : Literal := Ir.wordLiteral (selectorOf function.signature)

/-- Name of the function in the IR. The hash keeps functions of one name apart. -/
def uniqueName (function : Function) : Text :=
  if function.isFallback then fallbackName
  else "_" ++ function.name ++ "_" ++ hashOf function.signature

end Source.Function

end ContractAsm

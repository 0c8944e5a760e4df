import ContractAsm.Location

/-!
# Literals and typed names

The leaves that source assembly and the assembly IR have in common. A type is absent, or
empty in the untyped dialect, or a name such as `u256`.
-/

namespace ContractAsm

inductive Literal.Kind where
  | number
  | string
  | bool
deriving DecidableEq, Repr

namespace Literal.Kind

def name : Literal.Kind → Text
  | number => "number"
  | string => "string"
  | bool => "bool"

def all : List Literal.Kind := [number, string, bool]

def ofName? (name : Text) : Option Literal.Kind := all.find? fun kind => kind.name == name

end Literal.Kind

/-- A literal. The value of a string stands without its quotes, escape pairs as written. -/
structure Literal where
  kind : Literal.Kind
  value : Text
  type : Option Text
  location : Option Location := none
deriving DecidableEq, Repr

namespace Literal

def toJson (literal : Literal) : Json :=
  .ofPresent [
    ("kind", some (.string "literal")),
    ("literalKind", some (.string literal.kind.name)),
    ("value", some (.string literal.value)),
    ("type", literal.type.map .string),
    ("location", literal.location.map Location.toJson)]

def ofJson? (document : Json) : Option Literal := do
  let kind ← Literal.Kind.ofName? (← document.textAt? "literalKind")
  let value ← document.textAt? "value"
  let type ← document.optionalAt? "type" Json.text?
  let location ← document.optionalAt? "location" Location.ofJson?
  return ⟨kind, value, type, location⟩

end Literal

structure TypedName where
  name : Text
  type : Option Text
deriving DecidableEq, Repr

namespace TypedName

def toJson (declared : TypedName) : Json :=
  .ofPresent [("name", some (.string declared.name)), ("type", declared.type.map .string)]

def ofJson? (document : Json) : Option TypedName := do
  return ⟨← document.textAt? "name", ← document.optionalAt? "type" Json.text?⟩

end TypedName

end ContractAsm

import ContractAsm.Json.Basic

/-!
# Order of keys

Published files have their keys in one order at every level: the keys of a list first, in
the order of the list, then all others in the order of their units.
-/

namespace ContractAsm.Schema

def leadingKeys : List Text :=
  ["$schema", "$id", "$ref", "$defs", "definitions", "title", "description", "type", "const",
    "enum", "properties", "additionalProperties", "required", "items", "minItems", "anyOf",
    "oneOf", "minimum", "maximum"]

def orderMembers (members : List (Text × Json)) : List (Text × Json) :=
  (leadingKeys.flatMap fun key => members.filter fun member => member.1 == key)
    ++ (members.filter fun member => !leadingKeys.contains member.1).mergeSort
      fun a b => Text.le a.1 b.1

mutual

/-- The document with its keys in order at every level. A member named `__proto__` is kept
like any other, where building the object by assignment sets its prototype and loses the
member: for documents that have such a member this is not the published output. -/
def orderKeys : Json → Json
  | .array elements => .array (orderKeysOfElements elements)
  | .object members => .object (orderMembers (orderKeysOfMembers members))
  | value => value

def orderKeysOfElements : List Json → List Json
  | [] => []
  | element :: rest => orderKeys element :: orderKeysOfElements rest

def orderKeysOfMembers : List (Text × Json) → List (Text × Json)
  | [] => []
  | (key, value) :: rest => (key, orderKeys value) :: orderKeysOfMembers rest

end

end ContractAsm.Schema

import ContractAsm.Json.Number
import ContractAsm.Text.Basic

/-!
# Documents

A document is a tree of values. An object keeps its members in order, so a written
document shows them as they were read or built; `ofMembers` gives the order in which a
reader keeps them.
-/

namespace ContractAsm

inductive Json where
  | null
  | bool (value : Bool)
  | number (value : Json.Number)
  | string (text : Text)
  | array (elements : List Json)
  | object (members : List (Text × Json))

namespace Json

instance : Inhabited Json := ⟨.null⟩

def nat (n : Nat) : Json := .number (.ofNat n)

def find? (name : Text) : List (Text × Json) → Option Json
  | [] => none
  | (key, value) :: rest => if key = name then some value else find? name rest

def member? (name : Text) : Json → Option Json
  | .object members => find? name members
  | _ => none

theorem sizeOf_find? {name : Text} {members : List (Text × Json)} {value : Json}
    (found : find? name members = some value) : sizeOf value < sizeOf members := by
  induction members with
  | nil => simp [find?] at found
  | cons head rest ih =>
      obtain ⟨key, first⟩ := head
      simp only [find?] at found
      split at found
      · cases found
        simp only [List.cons.sizeOf_spec, Prod.mk.sizeOf_spec]
        omega
      · have := ih found
        simp only [List.cons.sizeOf_spec]
        omega

theorem sizeOf_member? {name : Text} {document value : Json}
    (found : document.member? name = some value) : sizeOf value < sizeOf document := by
  cases document with
  | object members =>
      have := sizeOf_find? found
      simp only [Json.object.sizeOf_spec]
      omega
  | _ => simp [member?] at found

/-- A member together with the fact that it is smaller than its object. -/
def child? (document : Json) (name : Text) : Option { value : Json // sizeOf value < sizeOf document } :=
  match found : document.member? name with
  | some value => some ⟨value, sizeOf_member? found⟩
  | none => none

/-- The elements of an array, together with the fact that they are smaller. -/
def elements? (document : Json) : Option { elements : List Json // sizeOf elements < sizeOf document } :=
  match document with
  | .array elements => some ⟨elements, by simp only [Json.array.sizeOf_spec]; omega⟩
  | _ => none

/-- The elements of an array member, together with the fact that they are smaller. -/
def items? (document : Json) (name : Text) :
    Option { elements : List Json // sizeOf elements < sizeOf document } := do
  let ⟨value, smaller⟩ ← document.child? name
  let ⟨elements, inside⟩ ← value.elements?
  return ⟨elements, Nat.lt_trans inside smaller⟩

def text? : Json → Option Text
  | .string text => some text
  | _ => none

def bool? : Json → Option Bool
  | .bool value => some value
  | _ => none

def number? : Json → Option Number
  | .number value => some value
  | _ => none

def array? : Json → Option (List Json)
  | .array elements => some elements
  | _ => none

/-! ## Reading members -/

def textAt? (document : Json) (name : Text) : Option Text := do (← document.member? name).text?

def listAt? {α : Type} (document : Json) (name : Text) (decode : Json → Option α) : Option (List α) := do
  (← (← document.member? name).array?).mapM decode

def optionalAt? {α : Type} (document : Json) (name : Text) (decode : Json → Option α) :
    Option (Option α) :=
  match document.member? name with
  | none => some none
  | some value => (decode value).map some

/-- The `kind` member that tells the nodes of a tree apart. -/
def kind? (document : Json) : Option String := (document.textAt? "kind").map Text.toString

/-! ## Order of members -/

/-- Puts a member at the end, or gives an existing one of that name its new value. -/
def put (name : Text) (value : Json) : List (Text × Json) → List (Text × Json)
  | [] => [(name, value)]
  | (key, old) :: rest =>
      if key = name then (key, value) :: rest else (key, old) :: put name value rest

/-- A name that is the decimal text of an index below 2^32 - 1, without leading zeros. -/
def index? (name : Text) : Option Nat :=
  match name.units with
  | [] => none
  | digits@(first :: rest) =>
      if digits.all CodeUnit.isDigit ∧ (first ≠ CodeUnit.zero ∨ rest = []) ∧ digits.length ≤ 10 then
        let value := digits.foldl (fun n digit => 10 * n + (digit.toNat - CodeUnit.zero.toNat)) 0
        if value < 0xFFFFFFFF then some value else none
      else none

/-- Members as a reader keeps them: a repeated name has its first place and its last value,
and index names come first, by number. -/
def ofMembers (written : List (Text × Json)) : Json :=
  let members := written.foldl (fun kept (key, value) => put key value kept) []
  let indexed := members.filterMap fun (key, value) => (index? key).map fun n => (n, key, value)
  if indexed.isEmpty then .object members
  else
    let sorted := indexed.mergeSort fun a b => decide (a.1 ≤ b.1)
    .object (sorted.map (fun (_, key, value) => (key, value))
      ++ members.filter fun (key, _) => (index? key).isNone)

def ofPresent (members : List (Text × Option Json)) : Json :=
  .object (members.filterMap fun (key, value) => value.map fun v => (key, v))

end Json

end ContractAsm

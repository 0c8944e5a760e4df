import ContractAsm.Json.Basic
import Mathlib.Data.List.Nodup

/-!
# Documents up to the order of members

Members may be moved around in their objects, at any depth; elements stay where they are. An object
is given by the order of its members only if a reader keeps them in that order, which takes that no
name occurs twice and none is an index.
-/

namespace ContractAsm

namespace Json

/-! ## Moving members -/

mutual

/-- The values are equal up to the order of members. -/
inductive Reordered : Json → Json → Prop where
  | same {value : Json} : Reordered value value
  | array {elements others : List Json} (each : ReorderedEach elements others) :
      Reordered (.array elements) (.array others)
  | object {members inside others : List (Text × Json)} (each : ReorderedInside members inside)
      (moved : inside.Perm others) : Reordered (.object members) (.object others)

inductive ReorderedEach : List Json → List Json → Prop where
  | nil : ReorderedEach [] []
  | cons {element other : Json} {elements others : List Json} (first : Reordered element other)
      (rest : ReorderedEach elements others) : ReorderedEach (element :: elements) (other :: others)

inductive ReorderedInside : List (Text × Json) → List (Text × Json) → Prop where
  | nil : ReorderedInside [] []
  | cons {name : Text} {value other : Json} {members others : List (Text × Json)}
      (first : Reordered value other) (rest : ReorderedInside members others) :
      ReorderedInside ((name, value) :: members) ((name, other) :: others)

end

/-! ## Objects at any depth -/

mutual

/-- What is said about members holds of every object, at any depth. -/
def EachObject (holds : List (Text × Json) → Prop) : Json → Prop
  | .array elements => EachObjectOfElements holds elements
  | .object members => holds members ∧ EachObjectOfMembers holds members
  | _ => True

def EachObjectOfElements (holds : List (Text × Json) → Prop) : List Json → Prop
  | [] => True
  | element :: rest => element.EachObject holds ∧ EachObjectOfElements holds rest

def EachObjectOfMembers (holds : List (Text × Json) → Prop) : List (Text × Json) → Prop
  | [] => True
  | (_, value) :: rest => value.EachObject holds ∧ EachObjectOfMembers holds rest

end

theorem eachObjectOfMembers_iff {holds : List (Text × Json) → Prop} {members : List (Text × Json)} :
    EachObjectOfMembers holds members ↔ ∀ member ∈ members, member.2.EachObject holds := by
  induction members with
  | nil => simp [EachObjectOfMembers]
  | cons member rest ih => rw [EachObjectOfMembers, ih, List.forall_mem_cons]

/-! ## Members that are kept in their order -/

/-- No name occurs twice, and none is an index. The name `__proto__` is not excluded: a member
of that name is kept here, where an assignment to it would lose the member. -/
structure Plain (members : List (Text × Json)) : Prop where
  distinct : (members.map Prod.fst).Nodup
  noIndex : ∀ name ∈ members.map Prod.fst, index? name = none

theorem Plain.of_perm {members others : List (Text × Json)} (plain : Plain members)
    (names : (others.map Prod.fst).Perm (members.map Prod.fst)) : Plain others where
  distinct := names.nodup_iff.mpr plain.distinct
  noIndex name listed := plain.noIndex name (names.mem_iff.mp listed)

theorem put_of_fresh {name : Text} {value : Json} {kept : List (Text × Json)}
    (fresh : name ∉ kept.map Prod.fst) : put name value kept = kept ++ [(name, value)] := by
  induction kept with
  | nil => rfl
  | cons member rest ih =>
    rw [List.map_cons, List.mem_cons, not_or] at fresh
    rw [put, if_neg (Ne.symm fresh.1), ih fresh.2, List.cons_append]

theorem foldl_put {kept members : List (Text × Json)} (distinct : ((kept ++ members).map Prod.fst).Nodup) :
    members.foldl (fun kept (key, value) => put key value kept) kept = kept ++ members := by
  induction members generalizing kept with
  | nil => rw [List.append_nil, List.foldl_nil]
  | cons member rest ih =>
    obtain ⟨name, value⟩ := member
    have fresh : name ∉ kept.map Prod.fst := by
      simp only [List.map_append, List.map_cons, List.nodup_middle, List.nodup_cons, List.mem_append,
        not_or] at distinct
      exact distinct.1.1
    rw [List.append_cons] at distinct
    simp only [List.foldl_cons, put_of_fresh fresh]
    rw [ih distinct, ← List.append_cons]

theorem ofMembers_of_plain {members : List (Text × Json)} (plain : Plain members) :
    ofMembers members = .object members := by
  have kept : members.foldl (fun kept (key, value) => put key value kept) [] = members := foldl_put plain.distinct
  have none : (members.filterMap fun (key, value) => (index? key).map fun n => (n, key, value)) = [] := by
    refine List.filterMap_eq_nil_iff.mpr fun (name, value) listed => ?_
    have noIndex : index? name = none := plain.noIndex name (List.mem_map_of_mem listed)
    simp only [noIndex, Option.map_none]
  simp only [ofMembers, kept, none, List.isEmpty_nil, if_true]

end Json

end ContractAsm

import ContractAsm.Proofs.Json.Reordering
import ContractAsm.Schema.KeyOrder
import Mathlib

/-!
# The published order

Ordering the keys of a document moves members and does nothing else, and where they come to stand is
decided by their names. So documents that are equal up to the order of members are published in one
form, which is ordered already.
-/

namespace ContractAsm.Schema

open Json (EachObject EachObjectOfElements EachObjectOfMembers Plain Reordered ReorderedEach ReorderedInside)

/-- First keys of the list in the order of the list, then other keys in the order of their units. -/
def InPublishedOrder (names : List Text) : Prop :=
  ∃ leading others, names = leading ++ others ∧ leading.Sublist leadingKeys
    ∧ (∀ name ∈ others, name ∉ leadingKeys) ∧ others.Pairwise (·.units < ·.units)

/-! ## Members of one object -/

theorem nodup_leadingKeys : leadingKeys.Nodup := by decide

theorem flatMap_filter_perm {keys : List Text} (distinct : keys.Nodup) (members : List (Text × Json)) :
    (keys.flatMap fun key => members.filter fun member => member.1 == key).Perm
      (members.filter fun member => keys.contains member.1) := by
  induction keys with
  | nil => simp
  | cons key rest ih =>
    obtain ⟨fresh, distinct⟩ := List.nodup_cons.mp distinct
    let all := members.filter fun member => (key :: rest).contains member.1
    have here : (all.filter fun member => member.1 == key) = members.filter fun member => member.1 == key := by
      rw [List.filter_filter]
      exact List.filter_congr fun member _ => by grind
    have later : (all.filter fun member => !(member.1 == key))
        = members.filter fun member => rest.contains member.1 := by
      rw [List.filter_filter]
      exact List.filter_congr fun member _ => by grind
    have split := List.filter_append_perm (fun member => member.1 == key) all
    rw [here, later] at split
    rw [List.flatMap_cons]
    exact ((ih distinct).append_left _).trans split

/-- Members are moved, and that is all. -/
theorem orderMembers_perm (members : List (Text × Json)) : (orderMembers members).Perm members := by
  have leading := flatMap_filter_perm nodup_leadingKeys members
  have others := List.mergeSort_perm (members.filter fun member => !leadingKeys.contains member.1)
    fun a b => Text.le a.1 b.1
  exact (leading.append others).trans (List.filter_append_perm _ _)

theorem flatMap_filter_sublist {names : List Text} (distinct : names.Nodup) (keys : List Text) :
    (keys.flatMap fun key => names.filter (· == key)).Sublist keys := by
  induction keys with
  | nil => exact .refl _
  | cons key rest ih =>
    have once : (names.filter (· == key)).Sublist [key] := by
      rw [List.filter_beq]
      exact (List.replicate_sublist_replicate key).mpr (List.nodup_iff_count_le_one.mp distinct key)
    exact once.append ih

theorem pairwise_mergeSort_units {members : List (Text × Json)} (distinct : (members.map Prod.fst).Nodup) :
    ((members.mergeSort fun a b => Text.le a.1 b.1).map Prod.fst).Pairwise (·.units < ·.units) := by
  have sorted : (members.mergeSort fun a b => Text.le a.1 b.1).Pairwise fun a b => Text.le a.1 b.1 = true := by
    refine List.pairwise_mergeSort (fun a b c => ?trans) (fun a b => ?total) members
    case trans =>
      simp only [Text.le, decide_eq_true_eq]
      exact List.le_trans
    case total =>
      simp only [Text.le, Bool.or_eq_true, decide_eq_true_eq]
      exact List.le_total _ _
  have apart : ((members.mergeSort fun a b => Text.le a.1 b.1).map Prod.fst).Nodup :=
    ((List.mergeSort_perm members _).map Prod.fst).nodup_iff.mpr distinct
  rw [List.Nodup, List.pairwise_map] at apart
  rw [List.pairwise_map]
  exact (sorted.and apart).imp fun ⟨le, ne⟩ => Std.lt_of_le_of_ne (of_decide_eq_true le) (mt Text.ext ne)

theorem orderMembers_inPublishedOrder {members : List (Text × Json)} (distinct : (members.map Prod.fst).Nodup) :
    InPublishedOrder ((orderMembers members).map Prod.fst) := by
  refine ⟨_, _, List.map_append, ?leading, ?others, ?sorted⟩
  case leading =>
    have taken := flatMap_filter_sublist distinct leadingKeys
    simpa only [List.map_flatMap, List.filter_map, Function.comp_def] using taken
  case others =>
    intro name listed
    obtain ⟨member, sorted, rfl⟩ := List.mem_map.mp listed
    have other := List.of_mem_filter ((List.mergeSort_perm _ _).mem_iff.mp sorted)
    simpa using other
  case sorted => exact pairwise_mergeSort_units (distinct.sublist (List.filter_sublist.map _))

/-! ## One order -/

/-- A name stands further in front in the list, or both stand behind its end and the units of one
come first. -/
def Precedes (name other : Text) : Prop :=
  leadingKeys.idxOf name < leadingKeys.idxOf other
    ∨ (leadingKeys.idxOf name = leadingKeys.idxOf other ∧ name.units < other.units)

theorem Precedes.asymm {name other : Text} (precedes : Precedes name other) : ¬ Precedes other name := by
  rintro (further | ⟨same, less⟩)
  · rcases precedes with _ | _ <;> omega
  · rcases precedes with _ | ⟨_, greater⟩
    · omega
    · exact List.lt_asymm less greater

theorem pairwise_leadingKeys : leadingKeys.Pairwise Precedes := by
  have further : leadingKeys.Pairwise fun key other => leadingKeys.idxOf key < leadingKeys.idxOf other := by decide
  exact further.imp .inl

theorem InPublishedOrder.pairwise {names : List Text} (ordered : InPublishedOrder names) :
    names.Pairwise Precedes := by
  obtain ⟨leading, others, rfl, listed, unlisted, sorted⟩ := ordered
  have last (name : Text) (member : name ∈ others) : leadingKeys.idxOf name = leadingKeys.length :=
    List.idxOf_eq_length (unlisted name member)
  refine List.pairwise_append.mpr ⟨pairwise_leadingKeys.sublist listed, ?_, ?_⟩
  · exact sorted.imp_of_mem fun first second less => .inr ⟨(last _ first).trans (last _ second).symm, less⟩
  · intro key first name second
    rw [Precedes, last name second]
    exact .inl (List.idxOf_lt_length_of_mem (listed.subset first))

/-- It does not matter in which order members are given. -/
theorem orderMembers_eq_of_perm {members others : List (Text × Json)} (distinct : (members.map Prod.fst).Nodup)
    (moved : members.Perm others) : orderMembers others = orderMembers members := by
  have distinct' : (others.map Prod.fst).Nodup := (moved.map Prod.fst).nodup_iff.mp distinct
  have first := List.pairwise_map.mp (orderMembers_inPublishedOrder distinct').pairwise
  have second := List.pairwise_map.mp (orderMembers_inPublishedOrder distinct).pairwise
  have same : (orderMembers others).Perm (orderMembers members) :=
    (orderMembers_perm others).trans (moved.symm.trans (orderMembers_perm members).symm)
  -- No two members precede each other, so there is only one way to put them in order.
  exact same.eq_of_pairwise (fun _ _ _ _ precedes behind => absurd behind precedes.asymm) first second

/-! ## Objects at any depth -/

theorem orderKeysOfMembers_eq_map (members : List (Text × Json)) :
    orderKeysOfMembers members = members.map fun member => (member.1, orderKeys member.2) := by
  induction members with
  | nil => rfl
  | cons member rest ih => rw [orderKeysOfMembers, List.map_cons, ih]

theorem names_orderKeysOfMembers (members : List (Text × Json)) :
    (orderKeysOfMembers members).map Prod.fst = members.map Prod.fst := by
  rw [orderKeysOfMembers_eq_map, List.map_map]
  rfl

theorem plain_orderKeysOfMembers {members : List (Text × Json)} (plain : Plain members) :
    Plain (orderKeysOfMembers members) :=
  plain.of_perm (.of_eq (names_orderKeysOfMembers members))

mutual

/-- Nothing is lost, and no element is moved. -/
theorem reordered_orderKeys (document : Json) : Reordered document (orderKeys document) := by
  match document with
  | .null | .bool _ | .number _ | .string _ => exact .same
  | .array elements => exact .array (reorderedEach_orderKeys elements)
  | .object members =>
    exact .object (reorderedInside_orderKeys members) (orderMembers_perm (orderKeysOfMembers members)).symm

theorem reorderedEach_orderKeys (elements : List Json) : ReorderedEach elements (orderKeysOfElements elements) := by
  match elements with
  | [] => exact .nil
  | element :: rest => exact .cons (reordered_orderKeys element) (reorderedEach_orderKeys rest)

theorem reorderedInside_orderKeys (members : List (Text × Json)) :
    ReorderedInside members (orderKeysOfMembers members) := by
  match members with
  | [] => exact .nil
  | (_, value) :: rest => exact .cons (reordered_orderKeys value) (reorderedInside_orderKeys rest)

end

/-- What is given of members comes to what is wanted once their object is ordered. -/
def Brings (given wanted : List (Text × Json) → Prop) : Prop :=
  ∀ members, given members → wanted (orderMembers (orderKeysOfMembers members))

section

variable {given wanted : List (Text × Json) → Prop}

mutual

theorem eachObject_orderKeys (brings : Brings given wanted) {document : Json} (each : document.EachObject given) :
    (orderKeys document).EachObject wanted := by
  match document with
  | .null | .bool _ | .number _ | .string _ => exact trivial
  | .array elements => exact eachObjectOfElements_orderKeys brings each
  | .object members =>
    obtain ⟨here, inside⟩ := each
    have values := Json.eachObjectOfMembers_iff.mp (eachObjectOfMembers_orderKeys brings inside)
    refine ⟨brings members here, Json.eachObjectOfMembers_iff.mpr fun member listed => ?_⟩
    exact values member ((orderMembers_perm _).mem_iff.mp listed)

theorem eachObjectOfElements_orderKeys (brings : Brings given wanted) {elements : List Json}
    (each : EachObjectOfElements given elements) : EachObjectOfElements wanted (orderKeysOfElements elements) := by
  match elements with
  | [] => exact trivial
  | _ :: _ => exact ⟨eachObject_orderKeys brings each.1, eachObjectOfElements_orderKeys brings each.2⟩

theorem eachObjectOfMembers_orderKeys (brings : Brings given wanted) {members : List (Text × Json)}
    (each : EachObjectOfMembers given members) : EachObjectOfMembers wanted (orderKeysOfMembers members) := by
  match members with
  | [] => exact trivial
  | _ :: _ => exact ⟨eachObject_orderKeys brings each.1, eachObjectOfMembers_orderKeys brings each.2⟩

end

end

mutual

/-- Documents that are equal up to the order of members have the same ordered form. -/
theorem orderKeys_eq_of_reordered {document other : Json} (plain : document.EachObject Plain)
    (reordered : Reordered document other) : orderKeys other = orderKeys document := by
  match reordered with
  | .same => rfl
  | .array each => exact congrArg Json.array (orderKeysOfElements_eq_of_reordered plain each)
  | @Reordered.object members inside others each moved =>
    -- The values are ordered alike where they stood, and moving them with their names changes nothing.
    have same : orderKeysOfMembers inside = orderKeysOfMembers members :=
      orderKeysOfMembers_eq_of_reordered plain.2 each
    have moved : (orderKeysOfMembers members).Perm (orderKeysOfMembers others) := by
      rw [← same, orderKeysOfMembers_eq_map, orderKeysOfMembers_eq_map]
      exact moved.map _
    exact congrArg Json.object (orderMembers_eq_of_perm (plain_orderKeysOfMembers plain.1).distinct moved)

theorem orderKeysOfElements_eq_of_reordered {elements others : List Json}
    (plain : EachObjectOfElements Plain elements) (reordered : ReorderedEach elements others) :
    orderKeysOfElements others = orderKeysOfElements elements := by
  match reordered with
  | .nil => rfl
  | .cons first rest =>
    rw [orderKeysOfElements, orderKeysOfElements, orderKeys_eq_of_reordered plain.1 first,
      orderKeysOfElements_eq_of_reordered plain.2 rest]

theorem orderKeysOfMembers_eq_of_reordered {members others : List (Text × Json)}
    (plain : EachObjectOfMembers Plain members) (reordered : ReorderedInside members others) :
    orderKeysOfMembers others = orderKeysOfMembers members := by
  match reordered with
  | .nil => rfl
  | .cons first rest =>
    rw [orderKeysOfMembers, orderKeysOfMembers, orderKeys_eq_of_reordered plain.1 first,
      orderKeysOfMembers_eq_of_reordered plain.2 rest]

end

/-- Ordering the keys of a document keeps it up to the order of members. It brings every object into
the published order, the one in which a reader keeps it. A document that is ordered stays as it is,
and documents that are equal up to the order of members have the same ordered form. -/
theorem orderKeys_canonical {document : Json} (plain : document.EachObject Plain) :
    Reordered document (orderKeys document)
      ∧ (orderKeys document).EachObject (fun members => InPublishedOrder (members.map Prod.fst)
        ∧ Json.ofMembers members = .object members)
      ∧ orderKeys (orderKeys document) = orderKeys document
      ∧ ∀ other, Reordered document other → orderKeys other = orderKeys document := by
  have reordered := reordered_orderKeys document
  refine ⟨reordered, ?_, orderKeys_eq_of_reordered plain reordered, fun _ => orderKeys_eq_of_reordered plain⟩
  refine eachObject_orderKeys (fun members plain => ?_) plain
  have inside := plain_orderKeysOfMembers plain
  exact ⟨orderMembers_inPublishedOrder inside.distinct,
    Json.ofMembers_of_plain (inside.of_perm ((orderMembers_perm _).map Prod.fst))⟩

def jumbledDocument : Json :=
  .object [("zeta", .array [.object [("b", .bool true), ("type", .null), ("a", .null), ("$id", .null)], .null]),
    ("title", .string "T")]

def movedDocument : Json :=
  .object [("title", .string "T"),
    ("zeta", .array [.object [("$id", .null), ("a", .null), ("type", .null), ("b", .bool true)], .null])]

def orderedDocument : Json :=
  .object [("title", .string "T"),
    ("zeta", .array [.object [("$id", .null), ("type", .null), ("a", .null), ("b", .bool true)], .null])]

theorem orderKeys_canonical_jumbled :
    jumbledDocument.EachObject Plain
      ∧ Reordered jumbledDocument orderedDocument
      ∧ orderedDocument.EachObject (fun members => InPublishedOrder (members.map Prod.fst)
        ∧ Json.ofMembers members = .object members)
      ∧ orderKeys orderedDocument = orderedDocument
      ∧ Reordered jumbledDocument movedDocument
      ∧ orderKeys movedDocument = orderedDocument := by
  have plain : jumbledDocument.EachObject Plain := by
    simp only [jumbledDocument, EachObject, EachObjectOfMembers, EachObjectOfElements, and_true]
    exact ⟨⟨by decide, by decide⟩, by decide, by decide⟩
  have moved : Reordered jumbledDocument movedDocument := by
    have inside : Reordered (.object [("b", .bool true), ("type", .null), ("a", .null), ("$id", .null)])
        (.object [("$id", .null), ("a", .null), ("type", .null), ("b", .bool true)]) :=
      .object (.cons .same (.cons .same (.cons .same (.cons .same .nil)))) (List.reverse_perm _).symm
    exact .object (.cons (.array (.cons inside (.cons .same .nil))) (.cons .same .nil)) (List.reverse_perm _).symm
  have result : orderKeys jumbledDocument = orderedDocument := by cbv
  obtain ⟨reordered, ordered, again, same⟩ := orderKeys_canonical plain
  rw [result] at reordered ordered again same
  exact ⟨plain, reordered, ordered, again, moved, same _ moved⟩

end ContractAsm.Schema

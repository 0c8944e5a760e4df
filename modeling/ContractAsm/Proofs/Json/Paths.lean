import ContractAsm.Json.Basic
import ContractAsm.Validation.Result

/-!
# Following a path

The path of a finding names, from the root on, the member of each object and the index in each
array. A segment holds no point, so the text of a path tells its segments.
-/

namespace ContractAsm

/-- The segments of a path. -/
def Text.segments (path : Text) : List Text := (path.units.splitOn CodeUnit.dot).map Text.mk

namespace Json

/-- One step into a value: to a member, or to the element whose index is written. -/
def step? (segment : Text) : Json → Option Json
  | .object members => find? segment members
  | .array elements =>
      (elements.zipIdx.find? fun indexed => (toString indexed.2 : Text) = segment).map Prod.fst
  | _ => none

def walk? (document : Json) : List Text → Option Json
  | [] => some document
  | segment :: rest => (document.step? segment).bind (·.walk? rest)

/-- What a path points to, followed from the root. -/
def resolve? (document : Json) (path : Text) : Option Json := document.walk? path.segments

theorem walk?_append (document : Json) (first second : List Text) :
    document.walk? (first ++ second) = (document.walk? first).bind (·.walk? second) := by
  induction first generalizing document with
  | nil => rfl
  | cons segment rest ih =>
    simp only [List.cons_append, walk?, Option.bind_assoc, ih]

theorem walk?_member {document value : Json} {name : Text} (found : document.member? name = some value) :
    document.walk? [name] = some value := by
  cases document with
  | object members =>
    have there : find? name members = some value := found
    simp [walk?, step?, there]
  | _ => contradiction

theorem toString_inj {first second : Nat} (same : (toString first : Text) = toString second) : first = second := by
  have texts := congrArg Text.toString same
  rw [Text.toString_ofString, Text.toString_ofString, Nat.toString_eq_repr, Nat.toString_eq_repr] at texts
  have digits := congrArg (fun text => Nat.ofDigitChars 10 text.toList 0) texts
  simpa only [Nat.toList_repr, Nat.ofDigitChars_toDigits (show 1 < 10 by decide) (show 10 ≤ 10 by decide)]
    using digits

theorem step?_element {elements : List Json} {index : Nat} {element : Json}
    (found : elements[index]? = some element) :
    (Json.array elements).step? (toString index : Text) = some element := by
  have listed : (element, index) ∈ elements.zipIdx := List.mem_zipIdx_iff_getElem?.mpr found
  cases first : elements.zipIdx.find? fun indexed => (toString indexed.2 : Text) = (toString index : Text) with
  | none =>
    have never := List.find?_eq_none.mp first (element, index) listed
    exact absurd (decide_eq_true rfl) never
  | some indexed =>
    have written := List.find?_some first
    have same : indexed.2 = index := toString_inj (of_decide_eq_true written)
    have there := List.mem_zipIdx_iff_getElem?.mp (List.mem_of_find?_eq_some first)
    rw [same, found] at there
    rw [step?, first, Option.map_some, ← Option.some.inj there]

theorem walk?_element {document element : Json} {name : Text} {elements : List Json} {index : Nat}
    (found : document.member? name = some (.array elements)) (there : elements[index]? = some element) :
    document.walk? [name, (toString index : Text)] = some element := by
  have member := walk?_member found
  have step := step?_element there
  rw [← List.singleton_append, walk?_append, member, Option.bind_some, walk?, step]
  rfl

end Json

/-! ## Segments -/

/-- A segment that can be told from its neighbours. -/
def IsSegment (segment : Text) : Prop := CodeUnit.dot ∉ segment.units

theorem isSegment_index (index : Nat) : IsSegment (toString index : Text) := by
  intro inside
  obtain ⟨c, written, unit⟩ := List.mem_flatMap.mp inside
  rw [Nat.toString_eq_repr, Nat.toList_repr] at written
  have digit : c.isDigit = true := Nat.isDigit_of_mem_toDigits (by decide) (by decide) written
  have range : 48 ≤ c.toNat ∧ c.toNat ≤ 57 := by
    simpa [Char.isDigit, UInt32.le_iff_toNat_le] using digit
  rw [CodeUnit.ofChar, if_pos (by omega), List.mem_singleton] at unit
  have value := congrArg UInt16.toNat unit
  rw [UInt16.toNat_ofNat_of_lt' (by simp only [UInt16.size]; omega)] at value
  have dot : CodeUnit.dot.toNat = 46 := rfl
  omega

/-- The text of a path that starts with a named segment. -/
theorem segments_pathText {first : Text} {rest : List Text} (some : first.units ≠ [])
    (separate : ∀ segment ∈ first :: rest, IsSegment segment) :
    (Validation.Finding.pathText (first :: rest)).segments = first :: rest := by
  have joined : (Text.join "." (first :: rest)).isEmpty = false := by
    rw [Text.isEmpty, List.isEmpty_eq_false_iff, Text.join, List.map_cons]
    cases rest with
    | nil => simpa using some
    | cons second others => simp [List.intercalate, some]
  have apart : ∀ units ∈ (first :: rest).map Text.units, CodeUnit.dot ∉ units := by
    intro units member
    obtain ⟨segment, listed, rfl⟩ := List.mem_map.mp member
    exact separate segment listed
  have split := List.splitOn_intercalate CodeUnit.dot apart (List.cons_ne_nil _ _)
  rw [Validation.Finding.pathText, if_neg (Bool.eq_false_iff.mp joined), Text.segments]
  show (List.splitOn CodeUnit.dot ([CodeUnit.dot].intercalate ((first :: rest).map Text.units))).map Text.mk = _
  rw [split, List.map_map]
  exact List.map_id _

end ContractAsm

import ContractAsm.Proofs.Dispatch.Names
import Mathlib.Data.List.Infix

/-!
# Overloads

A signature tells the name of a function and the types of its parameters apart, although the type
of a tuple holds parentheses and commas of its own: a comma between two types is the first that
stands outside all parentheses. So functions with different names have different names in the IR,
whatever their signatures are hashed to.
-/

namespace ContractAsm

open CodeUnit (openParen closeParen comma)
open Lowering (noValueCheck selectorReader)
open Source (Function Parameter)

/-! ## Types -/

/-- Parentheses are closed as often as they are opened, and none is closed before it is opened. -/
structure IsBalanced (units : List CodeUnit) : Prop where
  closed : units.count closeParen = units.count openParen
  opened : ∀ front, front <+: units → front.count closeParen ≤ front.count openParen

/-- A type as it stands in a signature: something balanced that has commas inside parentheses
alone. -/
structure IsTypeName (type : Text) : Prop where
  some : type.units ≠ []
  balanced : IsBalanced type.units
  inside : ∀ front, front ++ [comma] <+: type.units → front.count closeParen < front.count openParen

instance (units : List CodeUnit) : Decidable (IsBalanced units) :=
  decidable_of_iff (units.count closeParen = units.count openParen
      ∧ ∀ front ∈ units.inits, front.count closeParen ≤ front.count openParen)
    ⟨fun each => ⟨each.1, fun front start => each.2 front ((List.mem_inits _ _).mpr start)⟩,
      fun balanced => ⟨balanced.closed, fun front start => balanced.opened front ((List.mem_inits _ _).mp start)⟩⟩

instance (type : Text) : Decidable (IsTypeName type) :=
  decidable_of_iff (type.units ≠ [] ∧ IsBalanced type.units
      ∧ ∀ front ∈ type.units.inits, front ++ [comma] <+: type.units →
        front.count closeParen < front.count openParen)
    ⟨fun each => ⟨each.1, each.2.1, fun front start =>
        each.2.2 front ((List.mem_inits _ _).mpr ((List.prefix_append front [comma]).trans start)) start⟩,
      fun name => ⟨name.some, name.balanced, fun front _ => name.inside front⟩⟩

/-! ## Cutting -/

/-- Two ways to cut units agree if in neither the first part could be a longer start of the other
one. -/
theorem eq_of_append_eq {first second rest others : List CodeUnit} (same : first ++ rest = second ++ others)
    (ends : ∀ unit ∈ rest.head?, ¬ first ++ [unit] <+: second)
    (alsoEnds : ∀ unit ∈ others.head?, ¬ second ++ [unit] <+: first) : first = second ∧ rest = others := by
  rcases List.append_eq_append_iff.mp same with ⟨more, rfl, rfl⟩ | ⟨more, rfl, rfl⟩
  · cases more with
    | nil => exact ⟨(List.append_nil _).symm, rfl⟩
    | cons unit more => exact absurd ⟨more, by simp⟩ (ends unit rfl)
  · cases more with
    | nil => exact ⟨List.append_nil _, rfl⟩
    | cons unit more => exact absurd ⟨more, by simp⟩ (alsoEnds unit rfl)

theorem IsTypeName.ends {type other : Text} (name : IsTypeName type) (longer : IsTypeName other) :
    ¬ type.units ++ [comma] <+: other.units := by
  intro start
  have opened := longer.inside type.units start
  have closed := name.balanced.closed
  omega

def unitsBehindCommas (types : List Text) : List CodeUnit := types.flatMap fun type => comma :: type.units

theorem head?_unitsBehindCommas {types : List Text} :
    ∀ unit ∈ (unitsBehindCommas types).head?, unit = comma := by
  cases types with
  | nil => rintro _ ⟨⟩
  | cons =>
    rintro _ ⟨⟩
    rfl

theorem units_join_cons (type : Text) (rest : List Text) :
    (Text.join "," (type :: rest)).units = type.units ++ unitsBehindCommas rest := by
  have separator : (Text.ofString ",").units = [comma] := by decide
  induction rest generalizing type with
  | nil => simp [Text.join, unitsBehindCommas]
  | cons next rest ih =>
    have behind := ih next
    simp only [Text.join, List.map_cons, List.intercalate_cons_cons, separator] at behind ⊢
    rw [behind, unitsBehindCommas, unitsBehindCommas, List.flatMap_cons]
    simp

/-- The first of the types and what stands behind it can be told apart. -/
theorem cut_types {type other : Text} {rest others : List Text} (name : IsTypeName type)
    (alsoName : IsTypeName other)
    (same : type.units ++ unitsBehindCommas rest = other.units ++ unitsBehindCommas others) :
    type = other ∧ unitsBehindCommas rest = unitsBehindCommas others := by
  have cut := eq_of_append_eq same
    (fun unit head => by rw [head?_unitsBehindCommas unit head]; exact name.ends alsoName)
    (fun unit head => by rw [head?_unitsBehindCommas unit head]; exact alsoName.ends name)
  exact ⟨Text.ext cut.1, cut.2⟩

theorem unitsBehindCommas_inj {types others : List Text} (names : ∀ type ∈ types, IsTypeName type)
    (alsoNames : ∀ type ∈ others, IsTypeName type)
    (same : unitsBehindCommas types = unitsBehindCommas others) : types = others := by
  induction types generalizing others with
  | nil =>
    cases others with
    | nil => rfl
    | cons => cases same
  | cons type rest ih =>
    cases others with
    | nil => cases same
    | cons other others =>
      rw [List.forall_mem_cons] at names alsoNames
      obtain ⟨rfl, behind⟩ := cut_types names.1 alsoNames.1 (List.cons.inj same).2
      rw [ih names.2 alsoNames.2 behind]

theorem join_inj {types others : List Text} (names : ∀ type ∈ types, IsTypeName type)
    (alsoNames : ∀ type ∈ others, IsTypeName type)
    (same : (Text.join "," types).units = (Text.join "," others).units) : types = others := by
  cases types with
  | nil =>
    cases others with
    | nil => rfl
    | cons other others =>
      rw [units_join_cons] at same
      exact absurd (List.append_eq_nil_iff.mp same.symm).1 (alsoNames other List.mem_cons_self).some
  | cons type rest =>
    cases others with
    | nil =>
      rw [units_join_cons] at same
      exact absurd (List.append_eq_nil_iff.mp same).1 (names type List.mem_cons_self).some
    | cons other others =>
      rw [units_join_cons, units_join_cons] at same
      rw [List.forall_mem_cons] at names alsoNames
      obtain ⟨rfl, behind⟩ := cut_types names.1 alsoNames.1 same
      rw [unitsBehindCommas_inj names.2 alsoNames.2 behind]

/-! ## Signatures -/

theorem units_signatureOf (name : Text) (types : List Text) :
    (signatureOf name types).units
      = name.units ++ openParen :: ((Text.join "," types).units ++ [closeParen]) := by
  rw [signatureOf, Text.units_append, Text.units_append, Text.units_append, List.append_assoc,
    List.append_assoc]
  rfl

theorem signatureOf_inj {name other : Text} {types others : List Text} (plain : openParen ∉ name.units)
    (alsoPlain : openParen ∉ other.units) (names : ∀ type ∈ types, IsTypeName type)
    (alsoNames : ∀ type ∈ others, IsTypeName type) (same : signatureOf name types = signatureOf other others) :
    name = other ∧ types = others := by
  have units := congrArg Text.units same
  rw [units_signatureOf, units_signatureOf] at units
  have apart {first second : List CodeUnit} (noParen : openParen ∉ second) :
      ¬ first ++ [openParen] <+: second := fun start =>
    noParen (start.subset (List.mem_append_right _ List.mem_cons_self))
  obtain ⟨head, behind⟩ := eq_of_append_eq units
    (by rintro _ ⟨⟩; exact apart alsoPlain) (by rintro _ ⟨⟩; exact apart plain)
  obtain ⟨listed, -⟩ := List.append_inj' (List.cons.inj behind).2 rfl
  exact ⟨Text.ext head, join_inj names alsoNames listed⟩

/-- 64 hexadecimal digits. -/
structure IsDigest (digits : Text) : Prop where
  length : digits.length = 64
  hexadecimal : ∀ unit ∈ digits.units, unit.isHexDigit = true

theorem isDigest_hashOf (signature : Text) : IsDigest (hashOf signature) :=
  ⟨length_hashOf signature, isHexDigit_hashOf signature⟩

/-- A function whose name holds no parenthesis and whose parameters have types that can be told
apart. -/
structure Source.Function.IsPlain (function : Function) : Prop where
  name : openParen ∉ function.name.units
  types : ∀ type ∈ function.parameters.map Parameter.type, IsTypeName type

/-- Two functions have one signature exactly if they have the same name and the same list of types.
Whatever signatures are hashed to, as long as it is 64 digits, they have one name in the IR exactly
if their names and their hashes are equal, and it is neither the name of the fallback function nor
that of a helper. -/
theorem overloads_apart {first second : Function} (named : ¬ first.isFallback = true)
    (alsoNamed : ¬ second.isFallback = true) :
    (first.IsPlain → second.IsPlain →
        (first.signature = second.signature
          ↔ first.name = second.name
            ∧ first.parameters.map Parameter.type = second.parameters.map Parameter.type))
      ∧ (∀ hash : Text → Text, (∀ signature, IsDigest (hash signature)) →
        (first.nameBy hash = second.nameBy hash
            ↔ first.name = second.name ∧ hash first.signature = hash second.signature)
          ∧ first.nameBy hash ≠ fallbackName
          ∧ first.nameBy hash ≠ noValueCheck ∧ first.nameBy hash ≠ selectorReader)
      ∧ (∀ function : Function, function.uniqueName = function.nameBy hashOf)
      ∧ ∀ signature, IsDigest (hashOf signature) := by
  refine ⟨fun plain alsoPlain => ⟨?_, ?_⟩, fun hash digests => ⟨?_, ?_, ?_⟩, Function.uniqueName_eq,
    isDigest_hashOf⟩
  · exact signatureOf_inj plain.name alsoPlain.name plain.types alsoPlain.types
  · rintro ⟨names, types⟩
    rw [Function.signature, Function.signature, names, types]
  · exact Function.nameBy_eq_iff (fun signature => (digests signature).length) named alsoNamed
  · exact Function.nameBy_ne_fallbackName named
  · exact Function.nameBy_ne_helper hash first

def overload (types : List Text) : Function :=
  ⟨"f_1", .ordinary, .anyone, .payable, true, [], types.map (Parameter.mk .empty), [], none, default⟩

/-- A pair and a value beside it, and the same three values nested the other way. -/
theorem overloads_apart_nested :
    (overload ["(uint256,bool)", "bool"]).IsPlain ∧ (overload ["(uint256,(bool,bool))"]).IsPlain
      ∧ (overload ["(uint256,bool)", "bool"]).signature ≠ (overload ["(uint256,(bool,bool))"]).signature
      ∧ (overload ["(uint256,bool)", "bool"]).uniqueName ≠ fallbackName := by
  have first : (overload ["(uint256,bool)", "bool"]).IsPlain := ⟨by decide, by decide +kernel⟩
  have second : (overload ["(uint256,(bool,bool))"]).IsPlain := ⟨by decide, by decide +kernel⟩
  obtain ⟨apart, kept, unique, digests⟩ :=
    @overloads_apart (overload ["(uint256,bool)", "bool"]) (overload ["(uint256,(bool,bool))"])
      (by decide) (by decide)
  refine ⟨first, second, fun same => ?_, ?_⟩
  · exact absurd ((apart first second).mp same).2 (by decide)
  · rw [unique]
    exact (kept hashOf digests).2.1

end ContractAsm

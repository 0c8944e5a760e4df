import ContractAsm.Lowering.Snippet
import ContractAsm.Proofs.Dispatch.Selector
import ContractAsm.Proofs.Lexical.Scanning
import ContractAsm.Proofs.Syntax.Lexemes

/-!
# Names of functions in the IR

The name of a function is its own name between two underscores, and the hash of its
signature behind them. The hash is 64 digits long, so the name can be read off again; the
underscore in front keeps the name apart from those of the fallback and of the helpers.
-/

namespace ContractAsm

open CodeUnit (underscore)
open Execution (length_hexBytes length_selectorBytes selectorBytes toNat_highHalf toNat_lowHalf
  units_selectorOf)
open Lowering (noValueCheck selectorReader)
open Source (Function)

/-! ## Hashes -/

theorem units_hashOf (signature : Text) :
    (hashOf signature).units
      = ((Keccak.digest signature.toString.toUTF8.data.toList).toList.flatMap Keccak.hexByte).flatMap
          CodeUnit.ofChar := by
  rw [hashOf, Text.units_ofString, Keccak.hex, String.toList_ofList, Keccak.hexDigits]

theorem length_hashOf (signature : Text) : (hashOf signature).units.length = 64 := by
  have digits := length_hexBytes (Keccak.digest signature.toString.toUTF8.data.toList).toList
  rw [List.length_map, Vector.length_toList] at digits
  rw [units_hashOf, digits]

theorem isHexDigit_hexDigit {n : UInt8} (small : n.toNat < 16) :
    ∀ unit ∈ CodeUnit.ofChar (Keccak.hexDigit n), unit.isHexDigit = true := by
  have all : ∀ k : Fin 16,
      (CodeUnit.ofChar (Keccak.hexDigit (.ofNat k.val))).all CodeUnit.isHexDigit = true := by decide
  have digit := all ⟨n.toNat, small⟩
  rwa [UInt8.ofNat_toNat, List.all_eq_true] at digit

theorem isHexDigit_hexBytes (bytes : List UInt8) :
    ∀ unit ∈ (bytes.flatMap Keccak.hexByte).flatMap CodeUnit.ofChar, unit.isHexDigit = true := by
  intro unit member
  obtain ⟨c, written, member⟩ := List.mem_flatMap.mp member
  obtain ⟨byte, -, written⟩ := List.mem_flatMap.mp written
  have bound := byte.toNat_lt
  rcases List.mem_cons.mp written with rfl | written
  · exact isHexDigit_hexDigit (by rw [toNat_highHalf]; omega) unit member
  · obtain rfl := List.mem_singleton.mp written
    exact isHexDigit_hexDigit (by rw [toNat_lowHalf]; omega) unit member

theorem isHexDigit_hashOf (signature : Text) :
    ∀ unit ∈ (hashOf signature).units, unit.isHexDigit = true := by
  rw [units_hashOf]
  exact isHexDigit_hexBytes _

/-! ## Names -/

namespace Source.Function

variable {function other : Function} {hash : Text → Text}

/-- The name in the IR if signatures are hashed in some way. -/
def nameBy (hash : Text → Text) (function : Function) : Text :=
  if function.isFallback then fallbackName else "_" ++ function.name ++ "_" ++ hash function.signature

theorem uniqueName_eq (function : Function) : function.uniqueName = function.nameBy hashOf := rfl

theorem nameBy_fallback (fallback : function.isFallback = true) : function.nameBy hash = fallbackName := by
  rw [nameBy, if_pos fallback]

theorem units_nameBy (named : ¬ function.isFallback = true) :
    (function.nameBy hash).units
      = underscore :: (function.name.units ++ underscore :: (hash function.signature).units) := by
  rw [nameBy, if_neg named, Text.units_append, Text.units_append, Text.units_append, List.append_assoc,
    List.append_assoc]
  rfl

theorem head?_nameBy (named : ¬ function.isFallback = true) :
    (function.nameBy hash).units.head? = some underscore := by
  rw [units_nameBy named]
  rfl

/-- The name and the hash of the signature can be read off the name in the IR if all hashes are of
one length. -/
theorem nameBy_eq_iff {length : Nat} (even : ∀ signature, (hash signature).units.length = length)
    (named : ¬ function.isFallback = true) (alsoNamed : ¬ other.isFallback = true) :
    function.nameBy hash = other.nameBy hash
      ↔ function.name = other.name ∧ hash function.signature = hash other.signature := by
  constructor
  · intro same
    have units := congrArg Text.units same
    rw [units_nameBy named, units_nameBy alsoNamed, List.cons.injEq] at units
    have lengths : (underscore :: (hash function.signature).units).length
        = (underscore :: (hash other.signature).units).length := by
      rw [List.length_cons, List.length_cons, even, even]
    obtain ⟨names, hashes⟩ := List.append_inj' units.2 lengths
    exact ⟨Text.ext names, Text.ext (List.cons.inj hashes).2⟩
  · rintro ⟨names, hashes⟩
    rw [nameBy, nameBy, if_neg named, if_neg alsoNamed, names, hashes]

theorem nameBy_ne {name : Text} (named : ¬ function.isFallback = true)
    (apart : name.units.head? ≠ some underscore) : function.nameBy hash ≠ name := by
  rintro rfl
  exact apart (head?_nameBy named)

theorem nameBy_ne_fallbackName (named : ¬ function.isFallback = true) :
    function.nameBy hash ≠ fallbackName := nameBy_ne named (by decide)

/-- No function, the fallback included, has the name of a helper. -/
theorem nameBy_ne_helper (hash : Text → Text) (function : Function) :
    function.nameBy hash ≠ noValueCheck ∧ function.nameBy hash ≠ selectorReader := by
  by_cases fallback : function.isFallback = true
  · rw [nameBy_fallback fallback]
    exact ⟨by decide, by decide⟩
  · exact ⟨nameBy_ne fallback (by decide), nameBy_ne fallback (by decide)⟩

theorem uniqueName_fallback (fallback : function.isFallback = true) :
    function.uniqueName = fallbackName := nameBy_fallback fallback

theorem uniqueName_eq_iff (named : ¬ function.isFallback = true) (alsoNamed : ¬ other.isFallback = true) :
    function.uniqueName = other.uniqueName
      ↔ function.name = other.name ∧ hashOf function.signature = hashOf other.signature :=
  nameBy_eq_iff length_hashOf named alsoNamed

theorem uniqueName_ne_fallbackName (named : ¬ function.isFallback = true) :
    function.uniqueName ≠ fallbackName := nameBy_ne_fallbackName named

theorem uniqueName_ne_helper (function : Function) :
    function.uniqueName ≠ noValueCheck ∧ function.uniqueName ≠ selectorReader :=
  nameBy_ne_helper hashOf function

end Source.Function

/-! ## Lexemes -/

theorem isName_of_underscore {name : Text} {rest : List CodeUnit} (units : name.units = underscore :: rest)
    (continues : ∀ unit ∈ rest, Token.continuesWord unit = true) : IsName name where
  word := ⟨underscore, rest, units, by decide, continues⟩
  free := by
    rw [Keyword.ofText?, List.find?_eq_none]
    intro word _ same
    have head : word.text.units.head? ≠ some underscore := by
      cases word <;> decide
    rw [beq_iff_eq.mp same, units] at head
    exact head rfl

/-- The name of a function in the IR is an identifier if the function's own name may stand in
one. -/
theorem isName_uniqueName {function : Function}
    (continues : ∀ unit ∈ function.name.units, Token.continuesWord unit = true) :
    IsName function.uniqueName := by
  by_cases fallback : function.isFallback = true
  · rw [Function.uniqueName_fallback fallback]
    decide
  · apply isName_of_underscore (Function.units_nameBy fallback)
    intro unit member
    rcases List.mem_append.mp member with inside | behind
    · exact continues unit inside
    · rcases List.mem_cons.mp behind with rfl | digit
      · decide
      · exact Token.continuesWord_of_isHexDigit (isHexDigit_hashOf _ unit digit)

theorem spells_selectorOf (signature : Text) :
    Token.Spells (.number (selectorOf signature)) (selectorOf signature).units := by
  have digits : ((selectorBytes signature).flatMap Keccak.hexByte).flatMap CodeUnit.ofChar ≠ [] := by
    intro none
    have length := length_hexBytes (selectorBytes signature)
    rw [none, length_selectorBytes] at length
    exact absurd length (by decide)
  have spelled := Token.Spells.hexadecimal digits (isHexDigit_hexBytes (selectorBytes signature))
  rwa [← units_selectorOf] at spelled

end ContractAsm

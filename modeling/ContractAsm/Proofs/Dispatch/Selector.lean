import ContractAsm.Proofs.Dispatch.Execution
import ContractAsm.Signature
import Mathlib.Tactic.Ring

/-!
# Selectors as numbers

A selector is written in hexadecimal digits and compared with a number that is computed
from the call data. Both are the number of four bytes, and as many bytes are told apart by
their numbers.
-/

namespace ContractAsm.Execution

open CodeUnit (zero lowerX)

/-! ## The number of some bytes -/

theorem positional_append (base : Nat) (first second : List Nat) :
    positional base (first ++ second)
      = positional base second + base ^ second.length * positional base first := by
  rw [positional, List.reverse_append, Nat.ofDigits_append, List.length_reverse]
  rfl

theorem toNat_lt_of_mem {bytes : List UInt8} : ∀ digit ∈ (bytes.map UInt8.toNat).reverse, digit < 256 := by
  intro digit member
  obtain ⟨byte, -, rfl⟩ := List.mem_map.mp (List.mem_reverse.mp member)
  exact byte.toNat_lt

theorem bytesValue_lt (bytes : List UInt8) : bytesValue bytes < 256 ^ bytes.length := by
  have bound := Nat.ofDigits_lt_base_pow_length (by decide) (@toNat_lt_of_mem bytes)
  rwa [List.length_reverse, List.length_map] at bound

theorem bytesValue_inj {first second : List UInt8} (same : first.length = second.length) :
    bytesValue first = bytesValue second ↔ first = second := by
  constructor
  · intro equal
    have digits := Nat.ofDigits_inj_of_len_eq (by decide) (by simpa using same) toNat_lt_of_mem
      toNat_lt_of_mem equal
    exact (List.map_inj_right fun _ _ => UInt8.toNat_inj.mp).mp (List.reverse_inj.mp digits)
  · rintro rfl
    rfl

theorem bytesValue_append_div (first second : List UInt8) :
    bytesValue (first ++ second) / 256 ^ second.length = bytesValue first := by
  have split : bytesValue (first ++ second)
      = bytesValue second + 256 ^ second.length * bytesValue first := by
    rw [bytesValue, List.map_append, positional_append, List.length_map]
    rfl
  have positive : 0 < 256 ^ second.length := Nat.pow_pos (by decide)
  rw [split, Nat.add_mul_div_left _ _ positive, Nat.div_eq_of_lt (bytesValue_lt second), Nat.zero_add]

theorem length_paddedBytes (data : List UInt8) (offset count : Nat) :
    (paddedBytes data offset count).length = count := by
  rw [paddedBytes, List.length_append, List.length_take, List.length_replicate]
  omega

theorem take_paddedBytes (data : List UInt8) (offset : Nat) {few count : Nat} (fewer : few ≤ count) :
    (paddedBytes data offset count).take few = paddedBytes data offset few := by
  rw [paddedBytes, paddedBytes, List.take_append, List.take_take, List.take_replicate, List.length_take,
    Nat.min_eq_left fewer]
  congr 2
  omega

/-! ## Hexadecimal digits -/

theorem digitValue_hexDigit {n : UInt8} (small : n.toNat < 16) :
    (CodeUnit.ofChar (Keccak.hexDigit n)).map digitValue = [n.toNat] := by
  have all : ∀ k : Fin 16,
      (CodeUnit.ofChar (Keccak.hexDigit (.ofNat k.val))).map digitValue = [k.val] := by decide
  have value := all ⟨n.toNat, small⟩
  rwa [UInt8.ofNat_toNat] at value

theorem toNat_highHalf (byte : UInt8) : (byte >>> 4).toNat = byte.toNat / 16 := by
  rw [UInt8.toNat_shiftRight, Nat.shiftRight_eq_div_pow]
  rfl

theorem toNat_lowHalf (byte : UInt8) : (byte &&& 15).toNat = byte.toNat % 16 := by
  rw [UInt8.toNat_and]
  exact Nat.and_two_pow_sub_one_eq_mod byte.toNat 4

theorem digitValue_hexByte (byte : UInt8) :
    ((Keccak.hexByte byte).flatMap CodeUnit.ofChar).map digitValue
      = [byte.toNat / 16, byte.toNat % 16] := by
  have high := toNat_highHalf byte
  have low := toNat_lowHalf byte
  have bound := byte.toNat_lt
  rw [Keccak.hexByte, List.flatMap_cons, List.flatMap_singleton, List.map_append,
    digitValue_hexDigit (by omega), digitValue_hexDigit (by omega), high, low]
  rfl

theorem length_hexBytes (bytes : List UInt8) :
    (((bytes.flatMap Keccak.hexByte).flatMap CodeUnit.ofChar).map digitValue).length
      = 2 * bytes.length := by
  induction bytes with
  | nil => rfl
  | cons byte rest ih =>
    rw [List.flatMap_cons, List.flatMap_append, List.map_append, List.length_append, ih,
      digitValue_hexByte, List.length_cons]
    simp only [List.length_cons, List.length_nil]
    omega

/-- Two hexadecimal digits for each byte make up the number of the bytes. -/
theorem digitsValue_hexBytes (bytes : List UInt8) :
    digitsValue 16 ((bytes.flatMap Keccak.hexByte).flatMap CodeUnit.ofChar) = bytesValue bytes := by
  induction bytes with
  | nil => rfl
  | cons byte rest ih =>
    have pair : positional 16 [byte.toNat / 16, byte.toNat % 16] = byte.toNat := by
      have split := Nat.mod_add_div byte.toNat 16
      simpa [positional, Nat.ofDigits_cons] using split
    have single : positional 256 [byte.toNat] = byte.toNat := by
      simp [positional]
    have power : 16 ^ (2 * rest.length) = 256 ^ rest.length := by
      rw [Nat.pow_mul]
    rw [digitsValue] at ih ⊢
    rw [List.flatMap_cons, List.flatMap_append, List.map_append, digitValue_hexByte, positional_append,
      length_hexBytes, ih, pair, power]
    rw [bytesValue, bytesValue, List.map_cons, ← List.singleton_append, positional_append, List.length_map,
      single]

theorem take_hexBytes (bytes : List UInt8) (count : Nat) :
    (bytes.flatMap Keccak.hexByte).take (2 * count) = (bytes.take count).flatMap Keccak.hexByte := by
  induction bytes generalizing count with
  | nil => simp
  | cons byte rest ih =>
    cases count with
    | zero => rfl
    | succ count =>
      have two : (Keccak.hexByte byte).length = 2 := rfl
      have shift : 2 * (count + 1) - 2 = 2 * count := by omega
      have whole : (Keccak.hexByte byte).take (2 * (count + 1)) = Keccak.hexByte byte :=
        List.take_of_length_le (by omega)
      rw [List.flatMap_cons, List.take_append, two, shift, ih, whole, List.take_succ_cons,
        List.flatMap_cons]

/-! ## Selectors -/

/-- The bytes by which callers select a signature. -/
def selectorBytes (signature : Text) : List UInt8 :=
  (Keccak.digest signature.toString.toUTF8.data.toList).toList.take 4

theorem length_selectorBytes (signature : Text) : (selectorBytes signature).length = 4 := by
  rw [selectorBytes, List.length_take, Vector.length_toList]
  rfl

theorem units_selectorOf (signature : Text) :
    (selectorOf signature).units
      = zero :: lowerX :: ((selectorBytes signature).flatMap Keccak.hexByte).flatMap CodeUnit.ofChar := by
  have mark : (Text.ofString "0x").units = [zero, lowerX] := rfl
  have eight : 8 = 2 * 4 := rfl
  rw [selectorOf, Text.units_append, mark, Text.units_ofString, String.toList_ofList, Keccak.hexDigits,
    eight, take_hexBytes, selectorBytes, List.cons_append, List.cons_append, List.nil_append]

theorem numberValue_selectorOf (signature : Text) :
    numberValue (selectorOf signature) = bytesValue (selectorBytes signature) := by
  rw [numberValue, units_selectorOf]
  exact digitsValue_hexBytes (selectorBytes signature)

/-- Two selectors are written alike exactly if their bytes are the same. -/
theorem selectorOf_eq_iff (first second : Text) :
    selectorOf first = selectorOf second ↔ selectorBytes first = selectorBytes second := by
  constructor
  · intro same
    have lengths : (selectorBytes first).length = (selectorBytes second).length := by
      rw [length_selectorBytes, length_selectorBytes]
    rw [← bytesValue_inj lengths, ← numberValue_selectorOf, ← numberValue_selectorOf, same]
  · intro same
    ext1
    rw [units_selectorOf, units_selectorOf, same]

end ContractAsm.Execution

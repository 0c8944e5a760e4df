/-!
# Numbers of a document

A document number is the binary64 value nearest to its decimal text, a tie going to
the even significand. It is held exactly, as a rational or an infinity, so integrality
and range are decided in exact arithmetic. Negative zero is zero.
-/

namespace ContractAsm.Json

/-- A finite value held exactly, or a text too large for binary64. -/
inductive Number where
  | finite (value : Rat)
  | infinite (negative : Bool)
deriving DecidableEq, Repr

namespace Number

instance : Inhabited Number := ⟨.finite 0⟩

def ofNat (n : Nat) : Number := .finite n

def le : Number → Number → Bool
  | .infinite true, _ => true
  | _, .infinite false => true
  | .finite first, .finite second => decide (first ≤ second)
  | _, _ => false

theorem le_ofNat (first second : Nat) : (ofNat first).le (ofNat second) = true ↔ first ≤ second := by
  simp only [le, ofNat, decide_eq_true_eq]
  exact Rat.natCast_le_natCast

def twoTo (exponent : Nat) : Nat := Nat.pow 2 exponent

def tenTo (exponent : Nat) : Nat := Nat.pow 10 exponent

/-- Quotient rounded to the nearest natural number, a half going to the even neighbour. -/
def roundDiv (num den : Nat) : Nat :=
  let quotient := num / den
  let twice := 2 * (num % den)
  if twice < den then quotient
  else if den < twice then quotient + 1
  else quotient + quotient % 2

/-- Integer part of the base-two logarithm of a positive fraction. -/
def log2Div (num den : Nat) : Int :=
  let guess : Int := Int.ofNat num.log2 - Int.ofNat den.log2
  let reached : Bool :=
    if 0 ≤ guess then decide (den * twoTo guess.toNat ≤ num)
    else decide (den ≤ num * twoTo (-guess).toNat)
  if reached then guess else guess - 1

/-- A binary64 magnitude is a significand below 2^53 times a power of two. -/
structure Binary where
  significand : Nat
  exponent : Int

/-- Exponent of the last significand bit for a positive fraction, never below -1074. -/
def lastBit (num den : Nat) : Int := max (log2Div num den - 52) (-1074)

def nearestBinary (num den : Nat) : Binary :=
  let exponent := lastBit num den
  let significand :=
    if 0 ≤ exponent then roundDiv num (den * twoTo exponent.toNat)
    else roundDiv (num * twoTo (-exponent).toNat) den
  ⟨significand, exponent⟩

def Binary.value (b : Binary) : Rat :=
  if 0 ≤ b.exponent then ((b.significand * twoTo b.exponent.toNat : Nat) : Rat)
  else mkRat b.significand (twoTo (-b.exponent).toNat)

/-- The binary64 number nearest to a fraction with the given sign. -/
def nearest (negative : Bool) (num den : Nat) : Number :=
  if num = 0 then .finite 0
  else
    let value := (nearestBinary num den).value
    if (twoTo 1024 : Rat) ≤ value then .infinite negative
    else .finite (if negative then -value else value)

/-- The number written as `digits` times a power of ten. Powers far outside the range
of binary64 are decided by the count of digits alone. -/
def ofDecimal (negative : Bool) (digits : Nat) (exponent : Int) : Number :=
  let magnitude : Int := Int.ofNat (Nat.toDigits 10 digits).length + exponent
  if digits = 0 ∨ magnitude < -400 then .finite 0
  else if 400 < magnitude then .infinite negative
  else if 0 ≤ exponent then nearest negative (digits * tenTo exponent.toNat) 1
  else nearest negative digits (tenTo (-exponent).toNat)

end Number

end ContractAsm.Json

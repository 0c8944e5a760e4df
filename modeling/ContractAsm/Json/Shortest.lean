import ContractAsm.Json.Number

/-!
# Shortest decimal text of a number

A binary64 value is written with the fewest decimal digits that still read back as it.
Every real between the midpoints to its two neighbours reads back, the midpoints
themselves when the significand is even. On the decimal grid of one, two, up to seventeen
digits the two points around the value are tested; the first grid with a hit decides,
and of two hits the nearer one is taken.
-/

namespace ContractAsm.Json.Number

structure Decimal where
  digits : Nat
  exponent : Int
deriving DecidableEq, Repr

def powerOfTen (exponent : Int) : Rat :=
  if 0 ≤ exponent then (tenTo exponent.toNat : Rat) else mkRat 1 (tenTo (-exponent).toNat)

def Decimal.value (d : Decimal) : Rat := d.digits * powerOfTen d.exponent

/-- The reals that read back as one binary64 magnitude. -/
structure Interval where
  low : Rat
  high : Rat
  closed : Bool

def Interval.contains (i : Interval) (value : Rat) : Bool :=
  if i.closed then i.low ≤ value && value ≤ i.high else i.low < value && value < i.high

/-- The interval around a magnitude. The lower neighbour of a power of two stands at half
the distance of the upper one, unless the exponent is the least. -/
def Binary.interval (b : Binary) : Interval :=
  let quarter := (Binary.value ⟨1, b.exponent⟩) / 4
  let below : Rat := if b.significand = twoTo 52 ∧ -1074 < b.exponent then quarter else 2 * quarter
  { low := b.value - below, high := b.value + 2 * quarter, closed := b.significand % 2 = 0 }

def leadingPower (value : Rat) : Int :=
  let guess : Int := Int.ofNat (Nat.toDigits 10 value.num.natAbs).length
    - Int.ofNat (Nat.toDigits 10 value.den).length
  if powerOfTen guess ≤ value then guess else guess - 1

/-- The grid point of `count` digits that reads back as the value, if there is one. -/
def onGrid? (around : Interval) (value : Rat) (lead : Int) (count : Nat) : Option Decimal :=
  let exponent := lead + 1 - count
  let floor := (value / powerOfTen exponent).floor.toNat
  let below : Decimal := ⟨floor, exponent⟩
  let above : Decimal := ⟨floor + 1, exponent⟩
  match around.contains below.value, around.contains above.value with
  | true, true =>
      let short := value - below.value
      let long := above.value - value
      if short < long ∨ (short = long ∧ floor % 2 = 0) then some below else some above
  | true, false => some below
  | false, true => some above
  | false, false => none

/-- The shortest decimal that reads back as a positive binary64 value. -/
def shortest (value : Rat) : Decimal :=
  let binary := nearestBinary value.num.natAbs value.den
  let lead := leadingPower value
  let found := (List.range 17).findSome? fun i => onGrid? binary.interval value lead (i + 1)
  found.getD ⟨(value / powerOfTen (lead - 16)).floor.toNat, lead - 16⟩

def Decimal.trim (d : Decimal) : List Char × Int :=
  let reversed := (Nat.toDigits 10 d.digits).reverse
  let kept := reversed.dropWhile (· == '0')
  (kept.reverse, d.exponent + Int.ofNat (reversed.length - kept.length))

/-- Text of a positive decimal: positional while the point stands from six places left of
the first digit to twenty-one places right of it, else with a signed exponent. -/
def Decimal.text (d : Decimal) : String :=
  let (digits, exponent) := d.trim
  let count : Int := Int.ofNat digits.length
  let point := exponent + count
  if 0 ≤ exponent ∧ point ≤ 21 then
    String.ofList (digits ++ List.replicate exponent.toNat '0')
  else if 0 < point ∧ point ≤ 21 then
    String.ofList (digits.take point.toNat ++ '.' :: digits.drop point.toNat)
  else if -6 < point ∧ point ≤ 0 then
    String.ofList ('0' :: '.' :: List.replicate (-point).toNat '0' ++ digits)
  else
    let power := point - 1
    let mantissa := match digits with
      | [] => []
      | [only] => [only]
      | first :: rest => first :: '.' :: rest
    String.ofList mantissa ++ (if 0 ≤ power then "e+" else "e-") ++ toString power.natAbs

/-- Text of a number. An infinity has a word of its own. -/
def shown : Number → String
  | .infinite false => "Infinity"
  | .infinite true => "-Infinity"
  | .finite value =>
      if value.den = 1 ∧ value.num.natAbs < twoTo 53 then toString value.num
      else if value < 0 then "-" ++ (shortest (-value)).text
      else (shortest value).text

/-- Text of a number in a document, where an infinity is written `null`. -/
def text : Number → String
  | .infinite _ => "null"
  | number => number.shown

end ContractAsm.Json.Number

import ContractAsm.Json.Reader
import ContractAsm.Json.Shortest

/-!
# Lengths

Whether a value has at least one element. A text and an array have a length; an object has
one if it has a member of that name, and then the member is compared as the number it reads
as: nothing is zero, a truth value is zero or one, a text is read as a numeral, an array is
read as the text of its elements, and an object as a text that is no numeral. The comparison
fails for an object with a member `toString`, and for an array that holds one: there the text
would be the result of a call of that member, which is no function.
-/

namespace ContractAsm.Schema

/-! ## Numerals -/

def isNumeralBlank (c : Char) : Bool :=
  let n := c.toNat
  (9 ≤ n && n ≤ 13) || n = 0x20 || n = 0xA0 || n = 0x1680 || (0x2000 ≤ n && n ≤ 0x200A)
    || n = 0x2028 || n = 0x2029 || n = 0x202F || n = 0x205F || n = 0x3000 || n = 0xFEFF

def trimBlanks (input : List Char) : List Char :=
  ((input.dropWhile isNumeralBlank).reverse.dropWhile isNumeralBlank).reverse

/-- A whole number in a base up to sixteen. -/
def readBase? (base : Nat) (digits : List Char) : Option Json.Number := do
  if digits.isEmpty then none
  else
    let value ← digits.foldlM (fun n c => do
      let digit ← Json.hexValue? c
      if digit < base then some (n * base + digit) else none) 0
    return .ofDecimal false value 0

/-- An unsigned decimal: digits, a point that may stand at either end, and a power. -/
def readDecimal? (negative : Bool) (input : List Char) : Option Json.Number :=
  let (whole, rest) := Json.readDigits input
  let (fraction, rest) := match rest with
    | '.' :: rest => Json.readDigits rest
    | rest => ([], rest)
  if whole.isEmpty && fraction.isEmpty then none
  else
    match Json.readPower rest with
    | some (power, []) =>
        some (.ofDecimal negative (Json.natOfDigits (whole ++ fraction)) (power - fraction.length))
    | _ => none

/-- A decimal with an optional sign, or the word for an infinity. -/
def readSigned? (input : List Char) : Option Json.Number :=
  let (negative, input) := match input with
    | '-' :: rest => (true, rest)
    | '+' :: rest => (false, rest)
    | input => (false, input)
  if input = "Infinity".toList then some (.infinite negative) else readDecimal? negative input

/-- The number that a text reads as. A blank text is zero. -/
def numeral? (text : Text) : Option Json.Number :=
  match trimBlanks text.toString.toList with
  | [] => some (.finite 0)
  | '0' :: 'x' :: digits => readBase? 16 digits
  | '0' :: 'X' :: digits => readBase? 16 digits
  | '0' :: 'o' :: digits => readBase? 8 digits
  | '0' :: 'O' :: digits => readBase? 8 digits
  | '0' :: 'b' :: digits => readBase? 2 digits
  | '0' :: 'B' :: digits => readBase? 2 digits
  | input => readSigned? input

/-! ## Comparing values -/

mutual

/-- The text of a value inside an array, where nothing is empty. An object has one unless a member of
its own hides the function that yields it. -/
def elementText? : Json → Option Text
  | .null => some .empty
  | .bool true => some "true"
  | .bool false => some "false"
  | .number value => some value.shown
  | .string text => some text
  | .array elements => (elementTexts? elements).map (Text.join ",")
  | .object members =>
      if (Json.find? "toString" members).isSome then none else some "[object Object]"

def elementTexts? : List Json → Option (List Text)
  | [] => some []
  | element :: rest => do return (← elementText? element) :: (← elementTexts? rest)

end

def readsFromOne (text : Text) : Bool := (numeral? text).any (Json.Number.ofNat 1).le

/-- Whether a value is at least one. The comparison fails if the text of the value is wanted and it
has none. -/
def atLeastOne? : Json → Option Bool
  | .null => some false
  | .bool value => some value
  | .number value => some ((Json.Number.ofNat 1).le value)
  | .string text => some (readsFromOne text)
  | .array elements => (elementText? (.array elements)).map readsFromOne
  | .object members => (elementText? (.object members)).map readsFromOne

def isComparable (value : Json) : Bool := (atLeastOne? value).isSome

/-! ## Lengths -/

inductive Sized where
  | string
  | array
  | unknown
deriving DecidableEq, Repr

/-- What comes of asking a value for at least one element. -/
inductive Extent where
  | enough
  | short (sized : Sized)
  | incomparable
deriving DecidableEq, Repr

/-- Whether the length of an object is at least one, if it has one. -/
def lengthExtent (length : Option Json) : Extent :=
  match length.map atLeastOne? with
  | none => .enough
  | some (some true) => .enough
  | some (some false) => .short .unknown
  | some none => .incomparable

/-- Whether the value has at least one element. A value without a length is not asked. -/
def extent : Option Json → Extent
  | some (.string text) => if text.isEmpty then .short .string else .enough
  | some (.array elements) => if elements.isEmpty then .short .array else .enough
  | some (.object members) => lengthExtent (Json.find? "length" members)
  | _ => .enough

mutual

def holdsIncomparable : Json → Bool
  | .array elements => anyHoldsIncomparable elements
  | .object members => extent (some (.object members)) = .incomparable || membersHoldIncomparable members
  | _ => false

def anyHoldsIncomparable : List Json → Bool
  | [] => false
  | element :: rest => holdsIncomparable element || anyHoldsIncomparable rest

def membersHoldIncomparable : List (Text × Json) → Bool
  | [] => false
  | (_, value) :: rest => holdsIncomparable value || membersHoldIncomparable rest

end

end ContractAsm.Schema

import ContractAsm.Json.Basic

/-!
# Reading a document

The strict grammar: four blank characters, no comments, no trailing commas, nothing
after the value. Of two members of one name the later value counts. A reading function
answers the part it read and what is left of the input.
-/

namespace ContractAsm.Json

def isBlank (c : Char) : Bool := c = ' ' || c = '\t' || c = '\n' || c = '\r'

def skipBlanks (input : List Char) : List Char := input.dropWhile isBlank

/-! ## Numbers -/

def digitValue (c : Char) : Nat := c.toNat - '0'.toNat

def readDigits (input : List Char) : List Char × List Char :=
  (input.takeWhile Char.isDigit, input.dropWhile Char.isDigit)

/-- One digit zero, or digits that start with another. -/
def readWhole (input : List Char) : Option (List Char × List Char) :=
  match readDigits input with
  | ([], _) => none
  | ('0' :: _ :: _, _) => none
  | (digits, rest) => some (digits, rest)

/-- The digits after a point; a point needs at least one. -/
def readFraction : List Char → Option (List Char × List Char)
  | '.' :: rest =>
      match readDigits rest with
      | ([], _) => none
      | (digits, rest) => some (digits, rest)
  | input => some ([], input)

def natOfDigits (digits : List Char) : Nat := digits.foldl (fun n c => 10 * n + digitValue c) 0

def readPower (input : List Char) : Option (Int × List Char) :=
  match input with
  | c :: rest =>
      if c = 'e' ∨ c = 'E' then
        let (negative, rest) := match rest with
          | '-' :: rest => (true, rest)
          | '+' :: rest => (false, rest)
          | rest => (false, rest)
        match readDigits rest with
        | ([], _) => none
        | (digits, rest) =>
            let power : Int := natOfDigits digits
            some (if negative then -power else power, rest)
      else some (0, input)
  | [] => some (0, [])

def readMinus : List Char → Bool × List Char
  | '-' :: rest => (true, rest)
  | input => (false, input)

def readNumber (input : List Char) : Option (Number × List Char) := do
  let (negative, input) := readMinus input
  let (whole, input) ← readWhole input
  let (fraction, input) ← readFraction input
  let (power, input) ← readPower input
  let digits := natOfDigits (whole ++ fraction)
  return (.ofDecimal negative digits (power - fraction.length), input)

/-! ## Strings -/

def hexValue? (c : Char) : Option Nat :=
  if '0' ≤ c ∧ c ≤ '9' then some (c.toNat - '0'.toNat)
  else if 'a' ≤ c ∧ c ≤ 'f' then some (c.toNat - 'a'.toNat + 10)
  else if 'A' ≤ c ∧ c ≤ 'F' then some (c.toNat - 'A'.toNat + 10)
  else none

def hexUnit? (a b c d : Char) : Option CodeUnit := do
  return .ofNat
    (((← hexValue? a) * 16 + (← hexValue? b)) * 256 + (← hexValue? c) * 16 + (← hexValue? d))

def simpleEscape? : Char → Option Char
  | '"' => some '"'
  | '\\' => some '\\'
  | '/' => some '/'
  | 'b' => some '\x08'
  | 'f' => some '\x0c'
  | 'n' => some '\n'
  | 'r' => some '\r'
  | 't' => some '\t'
  | _ => none

/-- The units up to the closing quote. An escape by number stands for the unit of that
number, whatever its neighbours are. -/
def readUnits : List Char → Option (List CodeUnit × List Char)
  | '"' :: rest => some ([], rest)
  | '\\' :: 'u' :: a :: b :: c :: d :: rest => do
      let unit ← hexUnit? a b c d
      let (units, rest) ← readUnits rest
      return (unit :: units, rest)
  | '\\' :: c :: rest => do
      let escaped ← simpleEscape? c
      let (units, rest) ← readUnits rest
      return (CodeUnit.ofChar escaped ++ units, rest)
  | c :: rest =>
      if c.toNat < 0x20 ∨ c = '\\' then none
      else do
        let (units, rest) ← readUnits rest
        return (CodeUnit.ofChar c ++ units, rest)
  | [] => none

def readString : List Char → Option (Text × List Char)
  | '"' :: rest => (readUnits rest).map fun (units, rest) => (⟨units⟩, rest)
  | _ => none

/-! ## Values -/

def expect? : List Char → List Char → Option (List Char)
  | [], input => some input
  | c :: word, d :: input => if c = d then expect? word input else none
  | _ :: _, [] => none

mutual

/-- A value at the head of the input. The first argument bounds the nesting and the number
of parts; the length of the input is enough. -/
def readValue : Nat → List Char → Option (Json × List Char)
  | 0, _ => none
  | fuel + 1, input =>
      match skipBlanks input with
      | '\x7b' :: rest =>
          match skipBlanks rest with
          | '\x7d' :: rest => some (.object [], rest)
          | rest => (readMembers fuel rest).map fun (members, rest) => (ofMembers members, rest)
      | '[' :: rest =>
          match skipBlanks rest with
          | ']' :: rest => some (.array [], rest)
          | rest => (readElements fuel rest).map fun (elements, rest) => (.array elements, rest)
      | '"' :: rest => (readString ('"' :: rest)).map fun (text, rest) => (.string text, rest)
      | 't' :: rest => (expect? ['r', 'u', 'e'] rest).map fun rest => (.bool true, rest)
      | 'f' :: rest => (expect? ['a', 'l', 's', 'e'] rest).map fun rest => (.bool false, rest)
      | 'n' :: rest => (expect? ['u', 'l', 'l'] rest).map fun rest => (.null, rest)
      | rest => (readNumber rest).map fun (value, rest) => (.number value, rest)

def readElements : Nat → List Char → Option (List Json × List Char)
  | 0, _ => none
  | fuel + 1, input => do
      let (value, rest) ← readValue fuel input
      match skipBlanks rest with
      | ',' :: rest =>
          let (others, rest) ← readElements fuel rest
          return (value :: others, rest)
      | ']' :: rest => return ([value], rest)
      | _ => none

def readMembers : Nat → List Char → Option (List (Text × Json) × List Char)
  | 0, _ => none
  | fuel + 1, input => do
      let (key, rest) ← readString (skipBlanks input)
      match skipBlanks rest with
      | ':' :: rest =>
          let (value, rest) ← readValue fuel rest
          match skipBlanks rest with
          | ',' :: rest =>
              let (others, rest) ← readMembers fuel rest
              return ((key, value) :: others, rest)
          | '\x7d' :: rest => return ([(key, value)], rest)
          | _ => none
      | _ => none

end

/-- The document that a text holds, if it holds exactly one. -/
def read? (source : String) : Option Json :=
  let input := source.toList
  match readValue (input.length + 1) input with
  | some (value, rest) => if (skipBlanks rest).isEmpty then some value else none
  | none => none

end ContractAsm.Json

import ContractAsm.Json.Basic
import ContractAsm.Json.Shortest

/-!
# Writing a document

A document is written compactly or with one tab per level. A quote, a backslash, the control
characters below the blank and surrogates without a partner are escaped; every other
character stands for itself.
-/

namespace ContractAsm.Json

/-! ## Strings -/

def hexDigit (n : Nat) : Char :=
  if n < 10 then Char.ofNat ('0'.toNat + n) else Char.ofNat ('a'.toNat + (n - 10))

def escapeUnit (unit : CodeUnit) : List Char :=
  let n := unit.toNat
  ['\\', 'u', hexDigit (n / 4096), hexDigit (n / 256 % 16), hexDigit (n / 16 % 16), hexDigit (n % 16)]

def escapeChar (c : Char) : List Char :=
  match c with
  | '"' => ['\\', '"']
  | '\\' => ['\\', '\\']
  | '\x08' => ['\\', 'b']
  | '\t' => ['\\', 't']
  | '\n' => ['\\', 'n']
  | '\x0c' => ['\\', 'f']
  | '\r' => ['\\', 'r']
  | c => if c.toNat < 0x20 then escapeUnit (.ofNat c.toNat) else [c]

def escape : Text.Symbol → List Char
  | .char c => escapeChar c
  | .lone surrogate => escapeUnit surrogate

def quote (text : Text) : String := "\"" ++ String.ofList (text.symbols.flatMap escape) ++ "\""

/-! ## Values -/

def scalar : Json → String
  | .null => "null"
  | .bool true => "true"
  | .bool false => "false"
  | .number value => value.text
  | .string text => quote text
  | .array _ => "[]"
  | .object _ => "\x7b\x7d"

mutual

def compress : Json → String
  | .array elements => "[" ++ String.intercalate "," (compressAll elements) ++ "]"
  | .object members => "\x7b" ++ String.intercalate "," (compressMembers members) ++ "\x7d"
  | value => scalar value

def compressAll : List Json → List String
  | [] => []
  | value :: rest => compress value :: compressAll rest

def compressMembers : List (Text × Json) → List String
  | [] => []
  | (key, value) :: rest => (quote key ++ ":" ++ compress value) :: compressMembers rest

end

def newline (level : Nat) : String := "\n" ++ String.ofList (List.replicate level '\t')

/-- Parts between brackets, each on a line of its own one level further in. -/
def bracket (opening closing : String) (level : Nat) (parts : List String) : String :=
  if parts.isEmpty then opening ++ closing
  else
    opening ++ newline (level + 1) ++ String.intercalate ("," ++ newline (level + 1)) parts
      ++ newline level ++ closing

mutual

def layout (level : Nat) : Json → String
  | .array elements => bracket "[" "]" level (layoutAll (level + 1) elements)
  | .object members => bracket "\x7b" "\x7d" level (layoutMembers (level + 1) members)
  | value => scalar value

def layoutAll (level : Nat) : List Json → List String
  | [] => []
  | value :: rest => layout level value :: layoutAll level rest

def layoutMembers (level : Nat) : List (Text × Json) → List String
  | [] => []
  | (key, value) :: rest => (quote key ++ ": " ++ layout level value) :: layoutMembers level rest

end

/-- The text of a document with one tab per level. -/
def pretty (document : Json) : String := layout 0 document

end ContractAsm.Json

/-!
# Characters of a file

A file is read as UTF-8. A byte that begins no character, and a character that is cut short,
are each replaced by one mark; the byte that cut it short begins anew.
-/

namespace ContractAsm.Utf8

/-- A character that still lacks bytes: how many, the range of the next one, and the bits so
far. The range excludes overlong forms, surrogates and values beyond the last character. -/
structure Unfinished where
  owed : Nat
  low : Nat
  high : Nat
  bits : Nat
deriving DecidableEq, Repr

/-- The characters read so far, the last one first, and the character being read. -/
structure Progress where
  reversed : List Char
  unfinished : Option Unfinished
deriving DecidableEq, Repr

def replacement : Char := '\uFFFD'

def begin (reversed : List Char) (byte : Nat) : Progress :=
  if byte < 0x80 then ⟨Char.ofNat byte :: reversed, none⟩
  else if 0xC2 ≤ byte ∧ byte ≤ 0xDF then ⟨reversed, some ⟨1, 0x80, 0xBF, byte - 0xC0⟩⟩
  else if 0xE0 ≤ byte ∧ byte ≤ 0xEF then
    ⟨reversed, some ⟨2, if byte = 0xE0 then 0xA0 else 0x80, if byte = 0xED then 0x9F else 0xBF,
      byte - 0xE0⟩⟩
  else if 0xF0 ≤ byte ∧ byte ≤ 0xF4 then
    ⟨reversed, some ⟨3, if byte = 0xF0 then 0x90 else 0x80, if byte = 0xF4 then 0x8F else 0xBF,
      byte - 0xF0⟩⟩
  else ⟨replacement :: reversed, none⟩

def Progress.next (progress : Progress) (byte : Nat) : Progress :=
  match progress.unfinished with
  | none => begin progress.reversed byte
  | some character =>
      if character.low ≤ byte ∧ byte ≤ character.high then
        let bits := 64 * character.bits + (byte - 0x80)
        if character.owed = 1 then ⟨Char.ofNat bits :: progress.reversed, none⟩
        else ⟨progress.reversed, some ⟨character.owed - 1, 0x80, 0xBF, bits⟩⟩
      else begin (replacement :: progress.reversed) byte

def Progress.finish (progress : Progress) : List Char :=
  match progress.unfinished with
  | none => progress.reversed.reverse
  | some _ => (replacement :: progress.reversed).reverse

/-- The characters of a file. -/
def decode (bytes : List UInt8) : String :=
  let progress := bytes.foldl (fun (progress : Progress) byte => progress.next byte.toNat) ⟨[], none⟩
  .ofList progress.finish

end ContractAsm.Utf8

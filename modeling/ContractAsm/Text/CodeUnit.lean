/-!
# Code units

A text is made of sixteen-bit units. A character of the basic plane is one unit, every other
character is a pair of surrogates, a leading and a trailing one. A surrogate without its
partner is no character, but it may stand in a text.
-/

namespace ContractAsm

abbrev CodeUnit := UInt16

namespace CodeUnit

/-! ## Surrogates -/

def isLeading (unit : CodeUnit) : Bool := 0xD800 ≤ unit && unit ≤ 0xDBFF

def isTrailing (unit : CodeUnit) : Bool := 0xDC00 ≤ unit && unit ≤ 0xDFFF

def leadingOf (c : Char) : CodeUnit := .ofNat (0xD800 + (c.toNat - 0x10000) / 0x400)

def trailingOf (c : Char) : CodeUnit := .ofNat (0xDC00 + (c.toNat - 0x10000) % 0x400)

def ofChar (c : Char) : List CodeUnit :=
  if c.toNat < 0x10000 then [.ofNat c.toNat] else [leadingOf c, trailingOf c]

def pair (leading trailing : CodeUnit) : Char :=
  Char.ofNat (0x10000 + (leading.toNat - 0xD800) * 0x400 + (trailing.toNat - 0xDC00))

theorem isLeading_iff (unit : CodeUnit) :
    unit.isLeading = true ↔ 0xD800 ≤ unit.toNat ∧ unit.toNat ≤ 0xDBFF := by
  simp [isLeading, UInt16.le_iff_toNat_le]

theorem isTrailing_iff (unit : CodeUnit) :
    unit.isTrailing = true ↔ 0xDC00 ≤ unit.toNat ∧ unit.toNat ≤ 0xDFFF := by
  simp [isTrailing, UInt16.le_iff_toNat_le]

theorem toNat_leadingOf (c : Char) : (leadingOf c).toNat = 0xD800 + (c.toNat - 0x10000) / 0x400 := by
  have valid : c.toNat < 0xD800 ∨ (0xDFFF < c.toNat ∧ c.toNat < 0x110000) := c.valid
  unfold leadingOf
  rw [UInt16.toNat_ofNat_of_lt' (by simp only [UInt16.size]; omega)]

theorem toNat_trailingOf (c : Char) : (trailingOf c).toNat = 0xDC00 + (c.toNat - 0x10000) % 0x400 := by
  unfold trailingOf
  rw [UInt16.toNat_ofNat_of_lt' (by simp only [UInt16.size]; omega)]

theorem isLeading_leadingOf (c : Char) : (leadingOf c).isLeading = true := by
  have valid : c.toNat < 0xD800 ∨ (0xDFFF < c.toNat ∧ c.toNat < 0x110000) := c.valid
  rw [isLeading_iff, toNat_leadingOf]
  omega

theorem isTrailing_trailingOf (c : Char) : (trailingOf c).isTrailing = true := by
  rw [isTrailing_iff, toNat_trailingOf]
  omega

/-- A pair stands for the character that it was made of. -/
theorem pair_leadingOf_trailingOf {c : Char} (beyond : 0x10000 ≤ c.toNat) :
    pair (leadingOf c) (trailingOf c) = c := by
  have sum : 0x10000 + (0xD800 + (c.toNat - 0x10000) / 0x400 - 0xD800) * 0x400
      + (0xDC00 + (c.toNat - 0x10000) % 0x400 - 0xDC00) = c.toNat := by omega
  rw [pair, toNat_leadingOf, toNat_trailingOf, sum, Char.ofNat_toNat]

/-! ## Classes -/

/-- A letter of the basic alphabet. -/
def isLetter (unit : CodeUnit) : Bool :=
  (0x41 ≤ unit && unit ≤ 0x5A) || (0x61 ≤ unit && unit ≤ 0x7A)

def isDigit (unit : CodeUnit) : Bool := 0x30 ≤ unit && unit ≤ 0x39

def isHexDigit (unit : CodeUnit) : Bool :=
  unit.isDigit || (0x41 ≤ unit && unit ≤ 0x46) || (0x61 ≤ unit && unit ≤ 0x66)

/-! ## Single units by name -/

@[match_pattern] abbrev tab : CodeUnit := 0x09

@[match_pattern] abbrev newline : CodeUnit := 0x0A

@[match_pattern] abbrev carriageReturn : CodeUnit := 0x0D

@[match_pattern] abbrev space : CodeUnit := 0x20

@[match_pattern] abbrev quote : CodeUnit := 0x22

@[match_pattern] abbrev dollar : CodeUnit := 0x24

@[match_pattern] abbrev openParen : CodeUnit := 0x28

@[match_pattern] abbrev closeParen : CodeUnit := 0x29

@[match_pattern] abbrev asterisk : CodeUnit := 0x2A

@[match_pattern] abbrev comma : CodeUnit := 0x2C

@[match_pattern] abbrev minus : CodeUnit := 0x2D

@[match_pattern] abbrev dot : CodeUnit := 0x2E

@[match_pattern] abbrev slash : CodeUnit := 0x2F

@[match_pattern] abbrev zero : CodeUnit := 0x30

@[match_pattern] abbrev colon : CodeUnit := 0x3A

@[match_pattern] abbrev equals : CodeUnit := 0x3D

@[match_pattern] abbrev greater : CodeUnit := 0x3E

@[match_pattern] abbrev backslash : CodeUnit := 0x5C

@[match_pattern] abbrev underscore : CodeUnit := 0x5F

@[match_pattern] abbrev lowerX : CodeUnit := 0x78

@[match_pattern] abbrev openBrace : CodeUnit := 0x7B

@[match_pattern] abbrev closeBrace : CodeUnit := 0x7D

end CodeUnit

end ContractAsm

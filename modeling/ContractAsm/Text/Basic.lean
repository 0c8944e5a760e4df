import ContractAsm.Text.CodeUnit

/-!
# Texts

The names and values of documents and the text that is scanned and printed are sequences of
code units, so a surrogate without its partner is kept and offsets are plain lengths. Fixed
wording is written as a string and counts as the text of its characters. A text is shown as
characters; `toString_ofString` says that nothing is lost on the way there and back.
-/

namespace ContractAsm

/-- A sequence of code units. -/
@[ext] structure Text where
  units : List CodeUnit
deriving DecidableEq, Repr, Inhabited

namespace Text

/-! ## Building -/

def empty : Text := ⟨[]⟩

def ofString (characters : String) : Text := ⟨characters.toList.flatMap CodeUnit.ofChar⟩

instance : Coe String Text := ⟨ofString⟩

instance : Append Text := ⟨fun first second => ⟨first.units ++ second.units⟩⟩

def join (separator : Text) (parts : List Text) : Text :=
  ⟨separator.units.intercalate (parts.map units)⟩

def length (text : Text) : Nat := text.units.length

def isEmpty (text : Text) : Bool := text.units.isEmpty

/-- Texts ordered by their units, the first difference deciding. -/
def le (first second : Text) : Bool := decide (first.units ≤ second.units)

@[simp] theorem units_append (first second : Text) :
    (first ++ second).units = first.units ++ second.units := rfl

@[simp] theorem length_append (first second : Text) :
    (first ++ second).length = first.length + second.length := List.length_append

theorem append_assoc (first second third : Text) :
    first ++ second ++ third = first ++ (second ++ third) := by
  ext1
  simp

@[simp] theorem units_ofString (characters : String) :
    (ofString characters).units = characters.toList.flatMap CodeUnit.ofChar := rfl

@[simp] theorem ofString_append (first second : String) :
    ofString (first ++ second) = ofString first ++ ofString second := by
  ext1
  simp

/-! ## Showing -/

/-- A character, or a surrogate without its partner. -/
inductive Symbol where
  | char (c : Char)
  | lone (surrogate : CodeUnit)
deriving DecidableEq, Repr

/-- The symbol of a unit that is no half of a pair. -/
def single (unit : CodeUnit) : Symbol :=
  if unit.isLeading || unit.isTrailing then .lone unit else .char (Char.ofNat unit.toNat)

def symbolsOf : List CodeUnit → List Symbol
  | [] => []
  | [unit] => [single unit]
  | first :: second :: rest =>
      if first.isLeading && second.isTrailing then .char (CodeUnit.pair first second) :: symbolsOf rest
      else single first :: symbolsOf (second :: rest)

/-- The characters of a text and the surrogates between them. -/
def symbols (text : Text) : List Symbol := symbolsOf text.units

/-- The character in the place of a symbol; a lone surrogate is replaced. -/
def Symbol.shown : Symbol → Char
  | char c => c
  | lone _ => '\uFFFD'

def toString (text : Text) : String := String.ofList (text.symbols.map Symbol.shown)

instance : ToString Text := ⟨toString⟩

theorem single_ofNat {c : Char} (basic : c.toNat < 0x10000) :
    single (.ofNat c.toNat) = .char c ∧ CodeUnit.isLeading (.ofNat c.toNat) = false := by
  have valid : c.toNat < 0xD800 ∨ (0xDFFF < c.toNat ∧ c.toNat < 0x110000) := c.valid
  have value : (UInt16.ofNat c.toNat).toNat = c.toNat :=
    UInt16.toNat_ofNat_of_lt' (by simp only [UInt16.size]; omega)
  have leading : CodeUnit.isLeading (.ofNat c.toNat) = false := by
    rw [Bool.eq_false_iff, Ne, CodeUnit.isLeading_iff, value]
    omega
  have trailing : CodeUnit.isTrailing (.ofNat c.toNat) = false := by
    rw [Bool.eq_false_iff, Ne, CodeUnit.isTrailing_iff, value]
    omega
  exact ⟨by simp [single, leading, trailing, value], leading⟩

theorem symbolsOf_ofChar (c : Char) (rest : List CodeUnit) :
    symbolsOf (CodeUnit.ofChar c ++ rest) = .char c :: symbolsOf rest := by
  unfold CodeUnit.ofChar
  split
  case isTrue basic =>
    obtain ⟨alone, leading⟩ := single_ofNat basic
    cases rest <;> simp [symbolsOf, leading, alone]
  case isFalse beyond =>
    simp [symbolsOf, CodeUnit.isLeading_leadingOf, CodeUnit.isTrailing_trailingOf,
      CodeUnit.pair_leadingOf_trailingOf (Nat.le_of_not_lt beyond)]

theorem symbols_ofString (characters : String) :
    (ofString characters).symbols = characters.toList.map .char := by
  unfold symbols
  rw [units_ofString]
  induction characters.toList with
  | nil => rfl
  | cons c rest ih => simp [symbolsOf_ofChar, ih]

@[simp] theorem toString_ofString (characters : String) : (ofString characters).toString = characters := by
  simp [toString, symbols_ofString, Function.comp_def, Symbol.shown]

end Text

end ContractAsm

import ContractAsm.Token.Scan

/-!
# Texts in lexemes

What it means that a text is blanks and comments with lexemes between them: a line comment
goes up to the end of its line, a block comment up to the first closing mark, no word and no
number is followed by a unit that would continue it, and a colon before `=` is half of a
longer mark.
-/

namespace ContractAsm.Token

open CodeUnit (quote newline backslash slash asterisk equals zero lowerX)

/-! ## Blanks and comments -/

/-- No closing mark of a comment stands in the units, nor across their end and the mark that
follows them. -/
def Uncommented (comment : List CodeUnit) : Prop :=
  ∀ before after, comment ++ [asterisk] ≠ before ++ asterisk :: slash :: after

/-- Blanks and comments, each comment closed. At the end of a text, which the flag stands
for, the last line comment may lack its end of line. -/
inductive IsGap (last : Bool) : List CodeUnit → Prop where
  | nil : IsGap last []
  | blank {unit : CodeUnit} {rest : List CodeUnit} (blank : isBlank unit = true)
      (tail : IsGap last rest) : IsGap last (unit :: rest)
  | line {comment rest : List CodeUnit} (inside : newline ∉ comment) (tail : IsGap last rest) :
      IsGap last (slash :: slash :: (comment ++ newline :: rest))
  | block {comment rest : List CodeUnit} (inside : Uncommented comment) (tail : IsGap last rest) :
      IsGap last (slash :: asterisk :: (comment ++ asterisk :: slash :: rest))
  | lastLine {comment : List CodeUnit} (atEnd : last = true) (inside : newline ∉ comment) :
      IsGap last (slash :: slash :: comment)

/-! ## Lexemes -/

/-- What may stand between quotes: units, and pairs of a backslash and any unit. A quote, a
backslash or a line break stands in a pair only. -/
inductive IsBody : List CodeUnit → Prop where
  | nil : IsBody []
  | pair {unit : CodeUnit} {rest : List CodeUnit} (tail : IsBody rest) :
      IsBody (backslash :: unit :: rest)
  | unit {unit : CodeUnit} {rest : List CodeUnit} (noBackslash : unit ≠ backslash)
      (noNewline : unit ≠ newline) (noQuote : unit ≠ quote) (tail : IsBody rest) :
      IsBody (unit :: rest)

/-- The units that a lexeme is written with. -/
inductive Spells : Lexeme → List CodeUnit → Prop where
  | word {first : CodeUnit} {rest : List CodeUnit} (starts : startsWord first = true)
      (continues : ∀ unit ∈ rest, continuesWord unit = true) :
      Spells (.ofWord ⟨first :: rest⟩) (first :: rest)
  | decimal {digits : List CodeUnit} (some : digits ≠ [])
      (decimal : ∀ unit ∈ digits, unit.isDigit = true) : Spells (.number ⟨digits⟩) digits
  | hexadecimal {digits : List CodeUnit} (some : digits ≠ [])
      (hexadecimal : ∀ unit ∈ digits, unit.isHexDigit = true) :
      Spells (.number ⟨zero :: lowerX :: digits⟩) (zero :: lowerX :: digits)
  | string {body : List CodeUnit} (inside : IsBody body) :
      Spells (.string ⟨body⟩) (quote :: (body ++ [quote]))
  | mark (mark : Punctuation) : Spells (.punctuation mark) mark.text.units

/-- The units do not start with one that continues a word. -/
def EndsWord (after : List CodeUnit) : Prop :=
  ∀ unit ∈ after.head?, continuesWord unit = false

/-- The units do not start with one that must not follow a number. A point may, but starts
no lexeme. -/
def EndsNumber (after : List CodeUnit) : Prop :=
  ∀ unit ∈ after.head?, continuesWord unit = true → unit = CodeUnit.dot

/-- A lexeme ends in front of the units. -/
def Ends : Lexeme → List CodeUnit → Prop
  | .identifier _, after | .keyword _, after => EndsWord after
  | .number _, after => EndsNumber after
  | .punctuation .colon, after => after.head? ≠ some equals
  | _, _ => True

theorem Ends.of_head {lexeme : Lexeme} {after other : List CodeUnit} (ends : Ends lexeme after)
    (same : other.head? = after.head?) : Ends lexeme other := by
  cases lexeme with
  | identifier name | keyword word => exact fun unit member => ends unit (same ▸ member)
  | number digits => exact fun unit member => ends unit (same ▸ member)
  | punctuation mark =>
    cases mark with
    | colon => exact fun first => ends (same ▸ first)
    | assign | arrow | openBrace | closeBrace | openParen | closeParen | comma => trivial
  | string body | eof => trivial

/-- Every lexeme ends in front of a unit that continues no word and is half of no mark. -/
theorem ends_apart {unit : CodeUnit} (noWord : continuesWord unit = false) (noEquals : unit ≠ equals)
    {lexeme : Lexeme} {rest : List CodeUnit} : Ends lexeme (unit :: rest) := by
  cases lexeme with
  | identifier name | keyword word =>
    rintro _ ⟨⟩
    exact noWord
  | number digits =>
    rintro _ ⟨⟩ continues
    exact absurd (noWord.symm.trans continues) Bool.false_ne_true
  | punctuation mark =>
    cases mark with
    | colon =>
      rintro ⟨⟩
      exact noEquals rfl
    | assign | arrow | openBrace | closeBrace | openParen | closeParen | comma => trivial
  | string body | eof => trivial

/-- The units from an offset on are blanks and comments with these tokens between them. -/
inductive Splits : List CodeUnit → Nat → List Token → Prop where
  | nothing {gap : List CodeUnit} {pos : Nat} (trivia : IsGap true gap) : Splits gap pos []
  | lexeme {gap word after : List CodeUnit} {pos : Nat} {lexeme : Lexeme} {tokens : List Token}
      (trivia : IsGap false gap) (spelled : Spells lexeme word) (ends : Ends lexeme after)
      (tail : Splits after (pos + gap.length + word.length) tokens) :
      Splits (gap ++ (word ++ after)) pos
        (⟨lexeme, pos + gap.length, pos + gap.length + word.length⟩ :: tokens)

theorem Splits.behind {front rest : List CodeUnit} {pos : Nat} {tokens : List Token}
    (opens : ∀ last gap, IsGap last gap → IsGap last (front ++ gap))
    (splits : Splits rest (pos + front.length) tokens) : Splits (front ++ rest) pos tokens := by
  cases splits with
  | nothing trivia => exact .nothing (opens true _ trivia)
  | @lexeme gap word after _ lexeme tokens trivia spelled ends tail =>
    have shift : pos + front.length + gap.length = pos + (front ++ gap).length := by
      rw [List.length_append]
      omega
    rw [shift] at tail ⊢
    rw [← List.append_assoc]
    exact .lexeme (opens false _ trivia) spelled ends tail

/-! ## Classes of units -/

theorem isDigit_iff (unit : CodeUnit) :
    unit.isDigit = true ↔ 0x30 ≤ unit.toNat ∧ unit.toNat ≤ 0x39 := by
  simp [CodeUnit.isDigit, UInt16.le_iff_toNat_le]

theorem isHexDigit_iff (unit : CodeUnit) :
    unit.isHexDigit = true ↔ (0x30 ≤ unit.toNat ∧ unit.toNat ≤ 0x39)
      ∨ (0x41 ≤ unit.toNat ∧ unit.toNat ≤ 0x46) ∨ (0x61 ≤ unit.toNat ∧ unit.toNat ≤ 0x66) := by
  simp [CodeUnit.isHexDigit, isDigit_iff, UInt16.le_iff_toNat_le, or_assoc]

theorem startsWord_iff (unit : CodeUnit) :
    startsWord unit = true ↔ (0x41 ≤ unit.toNat ∧ unit.toNat ≤ 0x5A)
      ∨ (0x61 ≤ unit.toNat ∧ unit.toNat ≤ 0x7A) ∨ unit.toNat = 0x5F ∨ unit.toNat = 0x24 := by
  simp [startsWord, CodeUnit.isLetter, UInt16.le_iff_toNat_le, ← UInt16.toNat_inj, or_assoc]
  rfl

theorem continuesWord_iff (unit : CodeUnit) :
    continuesWord unit = true ↔ startsWord unit = true ∨ unit.isDigit = true ∨ unit.toNat = 0x2E := by
  simp [continuesWord, ← UInt16.toNat_inj, or_assoc]
  rfl

theorem isBlank_iff (unit : CodeUnit) :
    isBlank unit = true ↔ unit.toNat = 0x20 ∨ unit.toNat = 0x09 ∨ unit.toNat = 0x0A
      ∨ unit.toNat = 0x0D := by
  simp [isBlank, ← UInt16.toNat_inj, or_assoc]
  rfl

end ContractAsm.Token

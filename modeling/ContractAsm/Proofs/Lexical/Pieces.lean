import ContractAsm.Proofs.Lexical.Scanning

/-!
# Texts in pieces

A piece is a lexeme with the blanks and comments in front of it. A text is scanned exactly if
it can be cut into pieces such that no unit of a word stands directly behind a word or a number
and every mark is the longest that starts where it starts. There is only one way to do so, and
the tokens are the lexemes of the pieces at the places where they stand.
-/

namespace ContractAsm.Token

open CodeUnit (quote equals zero lowerX)

/-! ## What lexemes are written with -/

/-- A unit that starts a word and units that continue it. -/
def IsWord (units : List CodeUnit) : Prop :=
  ∃ first rest, units = first :: rest ∧ startsWord first = true ∧ ∀ unit ∈ rest, continuesWord unit = true

/-- Decimal digits, or hexadecimal ones behind `0x`. -/
def IsNumeral (units : List CodeUnit) : Prop :=
  (units ≠ [] ∧ ∀ unit ∈ units, unit.isDigit = true)
    ∨ ∃ digits, units = zero :: lowerX :: digits ∧ digits ≠ [] ∧ ∀ unit ∈ digits, unit.isHexDigit = true

/-- The units that a lexeme is written with. A word is an identifier unless it is reserved. -/
def Written : Lexeme → List CodeUnit → Prop
  | .identifier name, units =>
      units = name.units ∧ IsWord units ∧ ∀ reserved : Keyword, reserved.text.units ≠ units
  | .keyword reserved, units => units = reserved.text.units
  | .number digits, units => units = digits.units ∧ IsNumeral units
  | .string body, units => units = quote :: (body.units ++ [quote]) ∧ IsBody body.units
  | .punctuation mark, units => units = mark.text.units
  | .eof, _ => False

theorem ofWord_eq_keyword (reserved : Keyword) : Lexeme.ofWord reserved.text = .keyword reserved := by
  cases reserved <;> rfl

theorem ofWord_eq_identifier {word : Text} (free : ∀ reserved : Keyword, reserved.text.units ≠ word.units) :
    Lexeme.ofWord word = .identifier word := by
  have missing : Keyword.ofText? word = none := by
    rw [Keyword.ofText?, List.find?_eq_none]
    intro reserved _ same
    exact free reserved (congrArg Text.units (beq_iff_eq.mp same))
  rw [Lexeme.ofWord, missing]

theorem isWord_keyword (reserved : Keyword) : IsWord reserved.text.units := by
  cases reserved <;> exact ⟨_, _, rfl, by decide, List.all_eq_true.mp rfl⟩

theorem spells_word {units : List CodeUnit} (word : IsWord units) : Spells (.ofWord ⟨units⟩) units := by
  obtain ⟨first, rest, rfl, starts, continues⟩ := word
  exact .word starts continues

theorem written_ofWord {units : List CodeUnit} (word : IsWord units) : Written (.ofWord ⟨units⟩) units := by
  cases found : Keyword.ofText? ⟨units⟩ with
  | some reserved =>
    have same : reserved.text = ⟨units⟩ := by simpa using List.find?_some found
    rw [← same, ofWord_eq_keyword]
    exact congrArg Text.units same.symm
  | none =>
    have free : ∀ reserved : Keyword, reserved.text.units ≠ units := by
      intro reserved same
      have missing := List.find?_eq_none.mp found reserved (by cases reserved <;> decide)
      exact missing (beq_iff_eq.mpr (Text.ext same))
    rw [ofWord_eq_identifier free]
    exact ⟨rfl, word, free⟩

theorem written_iff_spells {lexeme : Lexeme} {units : List CodeUnit} :
    Written lexeme units ↔ Spells lexeme units := by
  constructor
  · intro written
    cases lexeme with
    | identifier name =>
      obtain ⟨rfl, word, free⟩ := written
      rw [← ofWord_eq_identifier free]
      exact spells_word word
    | keyword reserved =>
      rw [show units = reserved.text.units from written, ← ofWord_eq_keyword]
      exact spells_word (isWord_keyword reserved)
    | number digits =>
      obtain ⟨rfl, ⟨some, decimal⟩ | ⟨hex, same, some, hexadecimal⟩⟩ := written
      · exact .decimal some decimal
      · rw [show digits = ⟨zero :: lowerX :: hex⟩ from Text.ext same]
        exact .hexadecimal some hexadecimal
    | string body =>
      obtain ⟨rfl, inside⟩ := written
      exact .string inside
    | punctuation mark =>
      rw [show units = mark.text.units from written]
      exact .mark mark
    | eof => exact written.elim
  · intro spelled
    cases spelled with
    | word starts continues => exact written_ofWord ⟨_, _, rfl, starts, continues⟩
    | decimal some decimal => exact ⟨rfl, .inl ⟨some, decimal⟩⟩
    | hexadecimal some hexadecimal => exact ⟨rfl, .inr ⟨_, rfl, some, hexadecimal⟩⟩
    | string inside => exact ⟨rfl, inside⟩
    | mark => rfl

/-! ## What may follow them -/

/-- No longer mark starts where the mark does. -/
def IsLongest (mark : Punctuation) (after : List CodeUnit) : Prop :=
  ∀ other : Punctuation, mark.text.length < other.text.length →
    ¬ other.text.units <+: mark.text.units ++ after

/-- No unit of a word directly follows a word or a number, and no mark is part of a longer one. -/
def IsApart : Lexeme → List CodeUnit → Prop
  | .identifier _, after | .keyword _, after | .number _, after => EndsWord after
  | .punctuation mark, after => IsLongest mark after
  | .string _, _ | .eof, _ => True

theorem head_mark (mark : Punctuation) : ∃ first, mark.text.units.head? = some first := by
  cases mark <;> exact ⟨_, rfl⟩

/-- Among the marks only a colon starts a longer one, the assignment. -/
theorem assign_of_longer {mark other : Punctuation} (longer : mark.text.length < other.text.length)
    (same : mark.text.units.head? = other.text.units.head?) : mark = .colon ∧ other = .assign := by
  revert longer same
  cases mark <;> cases other <;> decide

theorem isLongest_iff_ends {mark : Punctuation} {after : List CodeUnit} :
    IsLongest mark after ↔ Ends (.punctuation mark) after := by
  constructor
  · intro longest
    cases mark with
    | colon =>
      intro first
      obtain ⟨rest, rfl⟩ := List.head?_eq_some_iff.mp first
      exact longest .assign (by decide) ⟨rest, rfl⟩
    | assign | arrow | openBrace | closeBrace | openParen | closeParen | comma => trivial
  · intro ends other longer ⟨rest, whole⟩
    obtain ⟨first, head⟩ := head_mark mark
    obtain ⟨otherFirst, otherHead⟩ := head_mark other
    have same : mark.text.units.head? = other.text.units.head? := by
      have heads := congrArg List.head? whole
      rw [List.head?_append, List.head?_append, head, otherHead] at heads
      rw [head, otherHead]
      exact heads.symm
    obtain ⟨rfl, rfl⟩ := assign_of_longer longer same
    cases whole
    exact ends rfl

theorem EndsNumber.endsWord {after : List CodeUnit} {pos : Nat} {tokens : List Token}
    (ends : EndsNumber after) (splits : Splits after pos tokens) : EndsWord after := by
  intro unit first
  cases continues : continuesWord unit with
  | false => rfl
  | true =>
    have point : unit = CodeUnit.dot := ends unit first continues
    obtain ⟨rest, rfl⟩ := List.head?_eq_some_iff.mp first
    have scanned := scanAll_complete splits (Nat.lt_succ_self _)
    rw [point, scanAll, skipGap_stop (by decide) (by decide)] at scanned
    contradiction

theorem isApart_of_ends {lexeme : Lexeme} {after : List CodeUnit} {pos : Nat} {tokens : List Token}
    (ends : Ends lexeme after) (splits : Splits after pos tokens) : IsApart lexeme after := by
  cases lexeme with
  | identifier | keyword => exact ends
  | number => exact EndsNumber.endsWord ends splits
  | punctuation => exact isLongest_iff_ends.mpr ends
  | string | eof => trivial

theorem IsApart.ends {lexeme : Lexeme} {after : List CodeUnit} (apart : IsApart lexeme after) :
    Ends lexeme after := by
  cases lexeme with
  | identifier | keyword => exact apart
  | number => exact EndsWord.number apart
  | punctuation => exact isLongest_iff_ends.mp apart
  | string | eof => trivial

/-! ## Cuts -/

/-- A lexeme with the units it is written with, and the blanks and comments in front of it. -/
structure Piece where
  gap : List CodeUnit
  lexeme : Lexeme
  word : List CodeUnit

/-- Pieces in a row, and the blanks and comments behind the last of them. -/
structure Cut where
  pieces : List Piece
  last : List CodeUnit

def unitsOf (last : List CodeUnit) : List Piece → List CodeUnit
  | [] => last
  | piece :: rest => piece.gap ++ (piece.word ++ unitsOf last rest)

def tokensOf (pos : Nat) : List Piece → List Token
  | [] => []
  | piece :: rest =>
      let start := pos + piece.gap.length
      let stop := start + piece.word.length
      ⟨piece.lexeme, start, stop⟩ :: tokensOf stop rest

/-- Every gap holds blanks and comments, and every lexeme is written out and keeps apart from
what follows it. -/
def ArePieces (last : List CodeUnit) : List Piece → Prop
  | [] => IsGap true last
  | piece :: rest =>
      IsGap false piece.gap ∧ Written piece.lexeme piece.word
        ∧ IsApart piece.lexeme (unitsOf last rest) ∧ ArePieces last rest

namespace Cut

def tokens (cut : Cut) : List Token := tokensOf 0 cut.pieces

/-- The text is cut into its pieces. -/
structure Cuts (cut : Cut) (source : Text) : Prop where
  whole : unitsOf cut.last cut.pieces = source.units
  valid : ArePieces cut.last cut.pieces

end Cut

theorem splits_of_pieces {last : List CodeUnit} {pieces : List Piece} (valid : ArePieces last pieces)
    (pos : Nat) : Splits (unitsOf last pieces) pos (tokensOf pos pieces) := by
  induction pieces generalizing pos with
  | nil => exact .nothing valid
  | cons piece rest ih =>
    obtain ⟨gap, written, apart, others⟩ := valid
    exact .lexeme gap (written_iff_spells.mp written) apart.ends (ih others _)

theorem pieces_of_splits {input : List CodeUnit} {pos : Nat} {tokens : List Token}
    (splits : Splits input pos tokens) :
    ∃ last pieces, unitsOf last pieces = input ∧ ArePieces last pieces := by
  induction splits with
  | @nothing gap _ trivia => exact ⟨gap, [], rfl, trivia⟩
  | @lexeme gap word after _ lexeme _ trivia spelled ends tail ih =>
    obtain ⟨last, pieces, rfl, valid⟩ := ih
    exact ⟨last, ⟨gap, lexeme, word⟩ :: pieces, rfl, trivia, written_iff_spells.mpr spelled,
      isApart_of_ends ends tail, valid⟩

/-- The tokens tell where the units are cut. -/
theorem pieces_eq_of_tokens {last other : List CodeUnit} {first second : List Piece} {pos : Nat}
    (units : unitsOf last first = unitsOf other second) (tokens : tokensOf pos first = tokensOf pos second) :
    first = second ∧ last = other := by
  induction first generalizing second pos with
  | nil =>
    cases second with
    | nil => exact ⟨rfl, units⟩
    | cons => contradiction
  | cons piece rest ih =>
    cases second with
    | nil => contradiction
    | cons counterpart others =>
      obtain ⟨gap, lexeme, word⟩ := piece
      obtain ⟨otherGap, otherLexeme, otherWord⟩ := counterpart
      simp only [tokensOf, List.cons.injEq, Token.mk.injEq] at tokens
      obtain ⟨⟨rfl, starts, stops⟩, behind⟩ := tokens
      obtain ⟨rfl, inner⟩ := List.append_inj units (by simpa using starts)
      obtain ⟨rfl, rest⟩ := List.append_inj inner (by simpa using stops)
      obtain ⟨rfl, rfl⟩ := ih rest behind
      exact ⟨rfl, rfl⟩

theorem Cut.Cuts.scan {cut : Cut} {source : Text} (cuts : cut.Cuts source) :
    Token.scan source = .ok cut.tokens := by
  rw [scan_iff, ← cuts.whole]
  exact splits_of_pieces cuts.valid 0

theorem Cut.Cuts.unique {first second : Cut} {source : Text} (cuts : first.Cuts source)
    (again : second.Cuts source) : first = second := by
  have tokens : first.tokens = second.tokens := by
    have same := cuts.scan.symm.trans again.scan
    exact Except.ok.inj same
  obtain ⟨pieces, last⟩ := pieces_eq_of_tokens (cuts.whole.trans again.whole.symm) tokens
  cases first
  cases second
  rw [Cut.mk.injEq]
  exact ⟨pieces, last⟩

/-- A text splits into lexemes exactly if it can be cut into pieces. The cut is the only one,
and its tokens with the end mark behind them are what is returned. -/
theorem ofText_exact (source : Text) :
    ((∃ tokens, ofText source = .ok tokens) ↔ ∃ cut : Cut, cut.Cuts source)
      ∧ (∀ cut : Cut, cut.Cuts source →
        ofText source = .ok (cut.tokens ++ [⟨.eof, source.length, source.length⟩]))
      ∧ ∀ first second : Cut, first.Cuts source → second.Cuts source → first = second := by
  have returned (cut : Cut) (cuts : cut.Cuts source) :
      ofText source = .ok (cut.tokens ++ [⟨.eof, source.length, source.length⟩]) := by
    rw [ofText, cuts.scan]
    rfl
  refine ⟨⟨?_, fun ⟨cut, cuts⟩ => ⟨_, returned cut cuts⟩⟩, returned, fun _ _ => Cut.Cuts.unique⟩
  rintro ⟨tokens, done⟩
  cases scanned : Token.scan source with
  | error failure =>
    rw [ofText, scanned] at done
    contradiction
  | ok lexemes =>
    obtain ⟨last, pieces, whole, valid⟩ := pieces_of_splits (scan_iff.mp scanned)
    exact ⟨⟨pieces, last⟩, whole, valid⟩

def commentedCut : Cut where
  pieces := [
    ⟨[0x2F, 0x2A, 0x2F, 0x2A, 0x2F], .identifier "x", [0x78]⟩,
    ⟨[], .punctuation .assign, [0x3A, 0x3D]⟩,
    ⟨[], .number "0x1F", [0x30, 0x78, 0x31, 0x46]⟩]
  last := [0x2F, 0x2F]

theorem ofText_exact_commented :
    commentedCut.Cuts "/*/*/x:=0x1F//"
      ∧ ofText "/*/*/x:=0x1F//" = .ok [⟨.identifier "x", 5, 6⟩, ⟨.punctuation .assign, 6, 8⟩,
        ⟨.number "0x1F", 8, 12⟩, ⟨.eof, 14, 14⟩] := by
  have unclosed : Uncommented [0x2F] := by
    intro before after split
    cases before with
    | nil => exact absurd (List.cons.inj split).1 (by decide)
    | cons first rest =>
      have lengths := congrArg List.length split
      simp only [List.length_append, List.length_cons, List.length_nil] at lengths
      omega
  have comment : IsGap false [0x2F, 0x2A, 0x2F, 0x2A, 0x2F] := @IsGap.block false [0x2F] [] unclosed .nil
  have cuts : commentedCut.Cuts "/*/*/x:=0x1F//" := by
    have word : IsWord [0x78] := ⟨0x78, [], rfl, by decide, nofun⟩
    have numeral : IsNumeral [0x30, 0x78, 0x31, 0x46] :=
      .inr ⟨[0x31, 0x46], rfl, List.cons_ne_nil _ _, List.all_eq_true.mp rfl⟩
    refine ⟨rfl, ⟨comment, ⟨rfl, word, ?_⟩, ?_, .nil, rfl, ?_, .nil, ⟨rfl, numeral⟩, ?_,
      .lastLine rfl List.not_mem_nil⟩⟩
    · intro reserved
      cases reserved <;> decide
    · rintro _ ⟨⟩
      decide
    · intro other longer
      cases other <;> exact absurd longer (by decide)
    · rintro _ ⟨⟩
      decide
  exact ⟨cuts, (ofText_exact "/*/*/x:=0x1F//").2.1 commentedCut cuts⟩

end ContractAsm.Token

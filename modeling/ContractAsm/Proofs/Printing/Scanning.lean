import ContractAsm.Layout
import ContractAsm.Proofs.Lexical.Scanning
import ContractAsm.Proofs.Syntax.Lexemes

/-!
# How a layout is scanned

A layout is written before other units, so whether its last lexeme ends there depends on
what follows. `Prints` says which lexemes a layout contributes, and on either side whether
it keeps apart from its neighbour by itself. Layouts are put in a row if one of two
neighbours keeps them apart.
-/

namespace ContractAsm

open CodeUnit (quote newline equals slash space)

namespace Token

/-! ## Texts by their lexemes -/

/-- Wherever the units stand, they split into tokens with these lexemes. -/
def Reads (input : List CodeUnit) (lexemes : List Lexeme) : Prop :=
  ∀ pos, ∃ tokens, Splits input pos tokens ∧ tokens.map Token.lexeme = lexemes

theorem reads_nil : Reads [] [] := fun _ => ⟨[], .nothing .nil, rfl⟩

theorem Reads.behind {front rest : List CodeUnit} {lexemes : List Lexeme}
    (opens : ∀ last gap, IsGap last gap → IsGap last (front ++ gap)) (reads : Reads rest lexemes) :
    Reads (front ++ rest) lexemes := by
  intro pos
  obtain ⟨tokens, splits, spelled⟩ := reads (pos + front.length)
  exact ⟨tokens, splits.behind opens, spelled⟩

theorem Reads.blank {unit : CodeUnit} {rest : List CodeUnit} {lexemes : List Lexeme}
    (blank : isBlank unit = true) (reads : Reads rest lexemes) : Reads (unit :: rest) lexemes := by
  have opens (last : Bool) (gap : List CodeUnit) (trivia : IsGap last gap) : IsGap last ([unit] ++ gap) :=
    .blank blank trivia
  exact reads.behind opens

theorem Reads.line {comment rest : List CodeUnit} {lexemes : List Lexeme} (inside : newline ∉ comment)
    (reads : Reads rest lexemes) : Reads (slash :: slash :: (comment ++ [newline]) ++ rest) lexemes := by
  apply reads.behind
  intro last gap trivia
  have line : IsGap last (slash :: slash :: (comment ++ newline :: gap)) := .line inside trivia
  simpa using line

theorem Reads.blanks {gap rest : List CodeUnit} {lexemes : List Lexeme}
    (blank : ∀ unit ∈ gap, isBlank unit = true) (reads : Reads rest lexemes) :
    Reads (gap ++ rest) lexemes := by
  induction gap with
  | nil => exact reads
  | cons unit gap ih =>
    exact (ih fun other member => blank other (List.mem_cons_of_mem _ member)).blank
      (blank unit List.mem_cons_self)

theorem Reads.lexeme {word after : List CodeUnit} {lexeme : Lexeme} {lexemes : List Lexeme}
    (reads : Reads after lexemes) (spelled : Spells lexeme word) (ends : Ends lexeme after) :
    Reads (word ++ after) (lexeme :: lexemes) := by
  intro pos
  obtain ⟨tokens, splits, rest⟩ := reads (pos + ([] : List CodeUnit).length + word.length)
  exact ⟨_, .lexeme .nil spelled ends splits, by rw [List.map_cons, rest]⟩

theorem Reads.scan {source : Text} {lexemes : List Lexeme} (reads : Reads source.units lexemes) :
    ∃ tokens, scan source = .ok tokens ∧ tokens.map Token.lexeme = lexemes := by
  obtain ⟨tokens, splits, spelled⟩ := reads 0
  exact ⟨tokens, scan_iff.mpr splits, spelled⟩

end Token

open Token (Reads EndsWord)

namespace Layout

/-! ## Rows of layouts -/

/-- A layout contributes its lexemes to what is scanned. It keeps apart from what stands
before it if it never starts with a unit that continues a word, and from what follows it if
nothing about the next unit matters. -/
structure Prints (before behind : Bool) (layout : Layout) (lexemes : List Lexeme) : Prop where
  reads : ∀ depth {after : List CodeUnit} {others : List Lexeme}, (behind = false → EndsWord after) →
    Reads after others → Reads (layout.write depth after) (lexemes ++ others)
  apart : before = true → ∀ depth after, EndsWord (layout.write depth after)

variable {before behind front back : Bool} {first second : Layout} {lexemes others : List Lexeme}

theorem Prints.append (h : Prints before behind first lexemes) (k : Prints front back second others)
    (apart : behind = true ∨ front = true) : Prints before back (first ++ second) (lexemes ++ others) where
  reads depth _ _ ends reads := by
    rw [write_append, List.append_assoc]
    refine h.reads depth (fun open_ => ?_) (k.reads depth ends reads)
    rcases apart with closed | apart
    · rw [open_] at closed
      cases closed
    · exact k.apart apart depth _
  apart starts depth _ := by
    rw [write_append]
    exact h.apart starts depth _

theorem Prints.nested (h : Prints before behind first lexemes) :
    Prints before behind (nested first) lexemes where
  reads depth _ _ ends reads := h.reads (depth + 1) ends reads
  apart starts depth _ := h.apart starts (depth + 1) _

/-- What keeps apart by itself may stand where that is not asked for. -/
theorem Prints.weaken (h : Prints before behind first lexemes) : Prints false false first lexemes where
  reads depth _ _ ends reads := h.reads depth (fun _ => ends rfl) reads
  apart starts := nomatch starts

theorem Prints.congr (h : Prints before behind first lexemes)
    (same : ∀ depth after, second.write depth after = first.write depth after) :
    Prints before behind second lexemes where
  reads depth _ _ ends reads := by
    rw [same]
    exact h.reads depth ends reads
  apart starts depth _ := by
    rw [same]
    exact h.apart starts depth _

theorem write_words_append (text rest : Text) (depth : Nat) (after : List CodeUnit) :
    (words (text ++ rest)).write depth after
      = (words text ++ words rest).write depth after := by
  simp only [write_append, write, Text.units_append, List.foldr_append]

theorem join_singleton (separator part : Text) : Text.join separator [part] = part := by
  simp [Text.join]

theorem write_words_join (separator : Text) (parts : List Text) (depth : Nat) (after : List CodeUnit) :
    (words (Text.join separator parts)).write depth after
      = (join separator (parts.map words)).write depth after := by
  induction parts generalizing after with
  | nil => rfl
  | cons part rest ih =>
    cases rest with
    | nil =>
      rw [join_singleton]
      rfl
    | cons next rest =>
      have split : Text.join separator (part :: next :: rest)
          = part ++ (separator ++ Text.join separator (next :: rest)) := by
        ext1
        simp [Text.join]
      rw [split, write_words_append, write_append, write_words_append, write_append, ih]
      rfl

/-! ## Blanks and marks -/

theorem continuesWord_of_isBlank {unit : CodeUnit} (blank : Token.isBlank unit = true) :
    Token.continuesWord unit = false := by
  rw [Token.isBlank_iff] at blank
  rw [Bool.eq_false_iff, Ne, Token.continuesWord_iff, Token.startsWord_iff, Token.isDigit_iff]
  omega

theorem endsWord_blank {unit : CodeUnit} (blank : Token.isBlank unit = true) (after : List CodeUnit) :
    EndsWord (unit :: after) := by
  rintro _ ⟨⟩
  exact continuesWord_of_isBlank blank

theorem prints_space : Prints true true (words " ") [] where
  reads _ _ _ _ reads := Reads.blank (by decide) reads
  apart _ _ after := endsWord_blank (by decide) after

theorem prints_newline : Prints true true (words "\n") [] where
  reads depth after others _ reads := by
    show Reads (breakLine depth after) others
    rw [breakLine]
    by_cases empty : isEmptyLine after = true
    · rw [if_pos empty]
      exact Reads.blank (by decide) reads
    · rw [if_neg empty]
      refine Reads.blank (by decide) (Reads.blanks (fun unit member => ?_) reads)
      rw [List.eq_of_mem_replicate member]
      decide
  apart _ _ _ := endsWord_blank (by decide) _

/-- A colon is left out: it must not stand in front of `=`. -/
theorem prints_mark (mark : Punctuation) (noColon : mark ≠ .colon) :
    Prints true true (words mark.text) [.punctuation mark] where
  reads depth after others _ reads := by
    have line : newline ∉ mark.text.units := by cases mark <;> decide
    rw [write_words line]
    refine reads.lexeme (.mark mark) ?_
    cases mark with
    | colon => exact (noColon rfl).elim
    | _ => trivial
  apart _ depth after := by
    have line : newline ∉ mark.text.units := by cases mark <;> decide
    rw [write_words line]
    cases mark <;> rintro _ ⟨⟩ <;> decide

theorem prints_markBlank (mark : Punctuation) (noColon : mark ≠ .colon) :
    Prints true true (words (mark.text ++ " ")) [.punctuation mark] :=
  ((prints_mark mark noColon).append prints_space (.inl rfl)).congr (write_words_append _ _)

theorem prints_spacedMark (mark : Punctuation) (noColon : mark ≠ .colon) :
    Prints true true (words (" " ++ (mark.text ++ " "))) [.punctuation mark] :=
  (prints_space.append (prints_markBlank mark noColon) (.inl rfl)).congr (write_words_append _ _)

/-! ## Words -/

theorem prints_spelled {text : Text} {lexeme : Lexeme} (line : newline ∉ text.units)
    (spelled : Token.Spells lexeme text.units) (ends : ∀ after, EndsWord after → Token.Ends lexeme after) :
    Prints false false (words text) [lexeme] where
  reads depth after _ ended reads := by
    rw [write_words line]
    exact reads.lexeme spelled (ends after (ended rfl))
  apart starts := nomatch starts

theorem newline_of_continuesWord {units : List CodeUnit}
    (continues : ∀ unit ∈ units, Token.continuesWord unit = true) : newline ∉ units :=
  fun member => absurd (continues newline member) (by decide)

theorem prints_word {word : Text} (spelled : ∃ first rest, word.units = first :: rest ∧
      Token.startsWord first = true ∧ ∀ unit ∈ rest, Token.continuesWord unit = true) :
    Prints false false (words word) [.ofWord word] := by
  obtain ⟨units⟩ := word
  obtain ⟨first, rest, rfl, starts, continues⟩ := spelled
  refine prints_spelled (newline_of_continuesWord fun unit member => ?_) (.word starts continues)
    fun after ended => Token.ends_ofWord.mpr ended
  rcases List.mem_cons.mp member with rfl | member
  · exact Token.continuesWord_of_starts starts
  · exact continues unit member

theorem ofWord_name {name : Text} (h : IsName name) : Lexeme.ofWord name = .identifier name := by
  rw [Lexeme.ofWord, h.free]

theorem prints_name {name : Text} (h : IsName name) :
    Prints false false (words name) [.identifier name] := by
  rw [← ofWord_name h]
  exact prints_word h.word

theorem prints_keyword (word : Keyword) : Prints false false (words word.text) [.keyword word] := by
  have reserved : Lexeme.ofWord word.text = .keyword word := by cases word <;> rfl
  rw [← reserved]
  apply prints_word
  cases word <;> exact ⟨_, _, rfl, by decide, List.all_eq_true.mp rfl⟩

theorem prints_keywordBlank (word : Keyword) :
    Prints false true (words (word.text ++ " ")) [.keyword word] :=
  ((prints_keyword word).append prints_space (.inr rfl)).congr (write_words_append _ _)

/-! ## Types and literals -/

open Ir (Dialect typeLexemes nameLexemes resultLexemes separated behindCommas literalLexemes
  LiteralReadable NamesReadable)

variable {dialect : Dialect}

theorem IsName.line {name : Text} (h : IsName name) : newline ∉ name.units := by
  obtain ⟨first, rest, units, starts, continues⟩ := h.word
  rw [units]
  refine newline_of_continuesWord fun unit member => ?_
  rcases List.mem_cons.mp member with rfl | member
  · exact Token.continuesWord_of_starts starts
  · exact continues unit member

/-- A colon in front of a name is no half of a longer mark. -/
theorem prints_typing {type : Text} (h : IsName type) :
    Prints true false (words (":" ++ type)) [.punctuation .colon, .identifier type] where
  reads depth after others ended reads := by
    have named := (prints_name h).reads depth ended reads
    rw [write_words (IsName.line h)] at named
    have written : (words (":" ++ type)).write depth after
        = Punctuation.colon.text.units ++ (type.units ++ after) := by
      rw [write_words_append, write_append, write_words (IsName.line h)]
      rfl
    rw [written]
    refine named.lexeme (.mark .colon) fun first => ?_
    obtain ⟨unit, rest, units, starts, -⟩ := h.word
    rw [units, List.cons_append, List.head?_cons, Option.some.injEq] at first
    subst first
    exact absurd starts (by decide)
  apart _ _ _ := by
    rintro _ ⟨⟩
    decide

theorem prints_typed {text : Text} {type : Option Text} {lexeme : Lexeme}
    (h : Prints before behind (words text) [lexeme]) (types : dialect.Types type) :
    Prints false false (words (typed text type)) (lexeme :: typeLexemes type) := by
  cases type with
  | none => exact types.elim
  | some type =>
    rw [Dialect.Types] at types
    by_cases mode : dialect.typed = true
    · rw [if_pos mode] at types
      have nonempty : ¬ type.isEmpty = true := by
        obtain ⟨first, rest, units, -⟩ := types.word
        rw [Text.isEmpty, units]
        exact Bool.false_ne_true
      rw [typed, typeLexemes, if_neg nonempty, if_neg nonempty, Text.append_assoc]
      exact ((h.append (prints_typing types) (.inr rfl)).congr (write_words_append _ _)).weaken
    · rw [if_neg mode] at types
      subst types
      exact h.weaken

theorem prints_number {value : Text} (spelled : Token.Spells (.number value) value.units) :
    Prints false false (words value) [.number value] :=
  prints_spelled (newline_of_continuesWord spelled.number_continues) spelled fun _ ended => ended.number

theorem prints_string {value : Text} (inside : Token.IsBody value.units) (line : newline ∉ value.units) :
    Prints false false (words ("\"" ++ value ++ "\"")) [.string value] := by
  refine prints_spelled ?_ (.string inside) fun _ _ => trivial
  show newline ∉ quote :: (value.units ++ [quote])
  simp only [List.mem_cons, List.mem_append, List.not_mem_nil, not_or]
  exact ⟨by decide, line, by decide, not_false⟩

theorem prints_bool {value : Text} (h : value = "true" ∨ value = "false") :
    Prints false false (words value) [.ofWord value] := by
  rcases h with rfl | rfl
  · exact prints_keyword .trueWord
  · exact prints_keyword .falseWord

theorem prints_literal {literal : Literal} (h : LiteralReadable dialect literal) :
    Prints false false (words (Layout.literal literal)) (literalLexemes literal) := by
  obtain ⟨kind, value, type, location⟩ := literal
  obtain ⟨valid, types⟩ := h
  cases kind with
  | number => exact prints_typed (prints_number valid) types
  | string => exact prints_typed (prints_string valid.1 valid.2) types
  | bool => exact prints_typed (prints_bool valid) types

/-! ## Lists -/

theorem Prints.comma {parts : List Layout} {rest : List (List Lexeme)}
    (h : Prints false false first lexemes)
    (k : Prints false false (join ", " (second :: parts)) (separated (others :: rest))) :
    Prints false false (join ", " (first :: second :: parts))
      (separated (lexemes :: others :: rest)) := by
  have row := (h.append (prints_markBlank .comma (by decide)) (.inr rfl)).append k (.inl rfl)
  rw [List.append_assoc] at row
  exact row

theorem prints_empty : Prints false false (words "") [] where
  reads _ _ _ _ reads := reads
  apart starts := nomatch starts

theorem prints_separated {α : Type} {parts : List α} {layout : α → Layout} {spelled : α → List Lexeme}
    (h : ∀ part ∈ parts, Prints false false (layout part) (spelled part)) :
    Prints false false (join ", " (parts.map layout)) (separated (parts.map spelled)) := by
  induction parts with
  | nil => exact prints_empty
  | cons part rest ih =>
    have head := h part List.mem_cons_self
    have tail := ih fun other member => h other (List.mem_cons_of_mem _ member)
    cases rest with
    | nil =>
      rw [List.map_singleton, List.map_singleton, separated, behindCommas, List.flatMap_nil, List.append_nil]
      exact head
    | cons next rest => exact head.comma tail

end Layout

end ContractAsm

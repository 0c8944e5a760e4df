import ContractAsm.Proofs.Printing.Scanning

/-!
# How the shapes of a printed tree are scanned

One statement for each rule of the layout: the lexemes of the shape are those of its parts
with its own keywords and marks between them. A block keeps apart on both sides, a
statement on neither.
-/

namespace ContractAsm.Layout

open Ir (Dialect nameLexemes resultLexemes separated NamesReadable)

variable {dialect : Dialect} {before behind front back : Bool} {first second third fourth : Layout}
  {lexemes others further rest : List Lexeme}

/-! ## Names -/

theorem prints_typedNames {names : List TypedName} (h : NamesReadable dialect names) :
    Prints false false (words (typedNames names)) (nameLexemes names) := by
  refine Prints.congr ?_ (write_words_join _ _)
  rw [List.map_map]
  have each : ∀ declared ∈ names, Prints false false (words (typed declared.name declared.type))
      (.identifier declared.name :: Ir.typeLexemes declared.type) := by
    intro declared member
    obtain ⟨named, types⟩ := h declared member
    exact prints_typed (prints_name named) types
  exact prints_separated each

theorem prints_names {names : List Text} (h : ∀ name ∈ names, IsName name) :
    Prints false false (words (Text.join ", " names))
      (separated (names.map fun name => [.identifier name])) :=
  (prints_separated fun name member => prints_name (h name member)).congr (write_words_join _ _)

theorem Prints.withResults (h : Prints false true first lexemes) {results : List TypedName}
    (readable : NamesReadable dialect results) :
    Prints false false (first ++ words (returns results)) (lexemes ++ resultLexemes results) := by
  cases results with
  | nil =>
    have same : lexemes ++ resultLexemes [] = lexemes := List.append_nil _
    rw [same]
    exact h.weaken.congr fun _ _ => rfl
  | cons declared rest =>
    have arrow : Prints true false (words (returns (declared :: rest))) (resultLexemes (declared :: rest)) :=
      ((prints_spacedMark .arrow (by decide)).append (prints_typedNames readable) (.inl rfl)).congr
        (write_words_append _ _)
    exact h.append arrow (.inl rfl)

/-! ## Expressions and simple statements -/

theorem prints_call {name : Text} (named : IsName name) {arguments : List Layout}
    (h : Prints false false (join ", " arguments) lexemes) :
    Prints false false (call name arguments)
      (.identifier name :: .punctuation .openParen :: (lexemes ++ [.punctuation .closeParen])) := by
  have opened := (prints_name named).append (prints_mark .openParen (by decide)) (.inr rfl)
  exact ((opened.append h (.inl rfl)).append (prints_mark .closeParen (by decide)) (.inr rfl)).weaken

theorem prints_declaration {names : List TypedName} (readable : NamesReadable dialect names) :
    Prints false false (declaration names none) (.keyword .letWord :: nameLexemes names) :=
  ((prints_keywordBlank .letWord).append (prints_typedNames readable) (.inl rfl)).congr fun _ _ => rfl

theorem prints_initialisation {names : List TypedName} (readable : NamesReadable dialect names)
    (h : Prints false false first lexemes) :
    Prints false false (declaration names (some first))
      (.keyword .letWord :: (nameLexemes names ++ .punctuation .assign :: lexemes)) := by
  have declared := (prints_keywordBlank .letWord).append (prints_typedNames readable) (.inl rfl)
  have value := (prints_spacedMark .assign (by decide)).append h (.inl rfl)
  exact declared.append value (.inr rfl)

theorem prints_assignment {names : List Text} (readable : ∀ name ∈ names, IsName name)
    (h : Prints false false first lexemes) :
    Prints false false (assignment names first)
      (separated (names.map fun name => [.identifier name]) ++ .punctuation .assign :: lexemes) := by
  have row := ((prints_names readable).append (prints_spacedMark .assign (by decide)) (.inr rfl)).append
    h (.inl rfl)
  rw [List.append_assoc] at row
  exact row

/-! ## Blocks -/

theorem Prints.line {parts : List Layout} (h : Prints false false first lexemes)
    (k : Prints false false (join "\n" (second :: parts)) others) :
    Prints false false (join "\n" (first :: second :: parts)) (lexemes ++ others) := by
  have row := (h.append prints_newline (.inr rfl)).append k (.inl rfl)
  rw [List.append_nil] at row
  exact row

theorem prints_braced {statements : List Layout}
    (h : Prints false false (join "\n" statements) lexemes) (none : statements = [] → lexemes = []) :
    Prints true true (braced statements)
      (.punctuation .openBrace :: (lexemes ++ [.punctuation .closeBrace])) := by
  cases statements with
  | nil =>
    rw [none rfl]
    exact ((prints_markBlank .openBrace (by decide)).append (prints_mark .closeBrace (by decide))
      (.inl rfl)).congr (write_words_append _ _)
  | cons statement rest =>
    have inner := (prints_newline.append h (.inl rfl)).nested
    have closing : Prints true true (words "\n\x7d") [.punctuation .closeBrace] :=
      (prints_newline.append (prints_mark .closeBrace (by decide)) (.inl rfl)).congr
        (write_words_append "\n" Punctuation.closeBrace.text)
    exact ((prints_mark .openBrace (by decide)).append inner (.inl rfl)).append closing (.inr rfl)

theorem prints_function {name : Text} (named : IsName name) {parameters results : List TypedName}
    (taken : NamesReadable dialect parameters) (given : NamesReadable dialect results)
    (h : Prints true true first lexemes) :
    Prints false false (function name parameters results first)
      (.keyword .functionWord :: .identifier name :: .punctuation .openParen ::
        (nameLexemes parameters ++ .punctuation .closeParen :: (resultLexemes results ++ lexemes))) := by
  have heading := ((prints_keywordBlank .functionWord).append (prints_name named) (.inl rfl)).append
    (prints_mark .openParen (by decide)) (.inr rfl)
  have listed := (heading.append (prints_typedNames taken) (.inl rfl)).append
    (prints_mark .closeParen (by decide)) (.inr rfl)
  have row := ((listed.withResults given).append prints_newline (.inr rfl)).append h (.inl rfl)
  simp only [List.append_assoc, List.nil_append] at row
  exact row.weaken

theorem prints_ifThen (h : Prints false false first lexemes) (k : Prints true true second others) :
    Prints false false (ifThen first second) (.keyword .ifWord :: (lexemes ++ others)) := by
  have row := (((prints_keywordBlank .ifWord).append h (.inl rfl)).append prints_space (.inr rfl)).append
    k (.inl rfl)
  rw [List.append_nil] at row
  exact row.weaken

theorem prints_forLoop (pre : Prints true true first lexemes) (condition : Prints false false second others)
    (post : Prints true true third further) (body : Prints true true fourth rest) :
    Prints false false (forLoop first second third fourth)
      (.keyword .forWord :: (lexemes ++ (others ++ (further ++ rest)))) := by
  have head := (((prints_keywordBlank .forWord).append pre (.inl rfl)).append prints_space
    (.inl rfl)).append condition (.inl rfl)
  have row := (((head.append prints_space (.inr rfl)).append post (.inl rfl)).append prints_newline
    (.inl rfl)).append body (.inl rfl)
  simp only [List.append_assoc, List.nil_append] at row
  exact row.weaken

theorem prints_switch {cases : List Layout} (h : Prints false false first lexemes)
    (k : Prints false false (join "\n" cases) others) :
    Prints false false (switch first cases) (.keyword .switchWord :: (lexemes ++ others)) := by
  have row := (((prints_keywordBlank .switchWord).append h (.inl rfl)).append prints_newline
    (.inr rfl)).append k (.inl rfl)
  rw [List.append_nil] at row
  exact row

theorem prints_case (h : Prints false false first lexemes) (k : Prints true true second others) :
    Prints false false (case (some first) second) (.keyword .caseWord :: (lexemes ++ others)) := by
  have row := (((prints_keywordBlank .caseWord).append h (.inl rfl)).append prints_space (.inr rfl)).append
    k (.inl rfl)
  rw [List.append_nil] at row
  exact row.weaken

theorem prints_default (h : Prints true true first lexemes) :
    Prints false false (case none first) (.keyword .defaultWord :: lexemes) :=
  ((prints_keywordBlank .defaultWord).append h (.inl rfl)).weaken

end ContractAsm.Layout

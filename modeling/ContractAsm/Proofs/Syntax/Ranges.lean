import ContractAsm.Proofs.Syntax.Diagnostics
import ContractAsm.Proofs.Syntax.Nodes

/-!
# What is reported stands in the text

Tokens, nodes, warnings and errors are all reported at ranges of the text, unless it ends in the
middle of a pair. Then the one error is that of the string it ends in, and its range ends one unit
behind the text.
-/

namespace ContractAsm

/-- Two offsets in the text, or at its end, in their order. -/
def Text.HasRange (source : Text) (start stop : Nat) : Prop := start ≤ stop ∧ stop ≤ source.length

namespace Ir

/-- The location is that of a range of the text. -/
def Dialect.Places (dialect : Dialect) (source : Text) (location : Location) : Prop :=
  ∃ start stop, location = dialect.location start stop ∧ source.HasRange start stop

/-- Every token and every node, and what is found in the text, are reported at ranges of it. -/
structure ReportsInside (source : Text) (dialect : Dialect) : Prop where
  tokens : ∀ tokens, Token.ofText source = .ok tokens → ∀ token ∈ tokens, source.HasRange token.start token.stop
  failure : ∀ error, Token.ofText source = .error error → source.HasRange error.start error.stop
  nodes : ∀ tree, (parse source dialect).block = some tree → ∀ node : Node, node.IsIn (.block tree) →
    ∃ location, node.location = some location ∧ dialect.Places source location
  diagnostics : ∀ diagnostic ∈ (parse source dialect).diagnostics, dialect.Places source diagnostic.location

variable {source : Text} {dialect : Dialect} {tokens inner : List Token}

/-! ## Tokens and nodes -/

theorem hasRange_of_scan (scanned : Token.scan source = .ok tokens) :
    ∀ token ∈ tokens, source.HasRange token.start token.stop := by
  intro token member
  obtain ⟨-, nonempty, inside⟩ := (Token.scan_iff.mp scanned).within token member
  rw [Nat.zero_add] at inside
  exact ⟨Nat.le_of_lt nonempty, inside⟩

theorem hasRange_of_ofText (read : Token.ofText source = .ok tokens) :
    ∀ token ∈ tokens, source.HasRange token.start token.stop := by
  obtain ⟨lexemes, scanned, rfl⟩ := Token.ofText_eq_ok_iff.mp read
  intro token member
  obtain member | last := List.mem_append.mp member
  · exact hasRange_of_scan scanned token member
  · obtain rfl := List.mem_singleton.mp last
    exact ⟨Nat.le_refl _, Nat.le_refl _⟩

theorem Node.Spans.inside {node : Node} {first last : Token} (spans : node.Spans dialect inner first last)
    (within : inner <:+: tokens) (scanned : Token.scan source = .ok tokens) :
    ∃ location, node.location = some location ∧ dialect.Places source location := by
  have closes := within.subset (List.mem_of_getLast? spans.closes)
  have last := (hasRange_of_scan scanned _ closes).2
  exact ⟨_, spans.located, _, _, rfl, Nat.le_of_lt spans.nonempty, last⟩

theorem StandsIn.inside {statement : Statement} (standing : StandsIn dialect tokens statement)
    (scanned : Token.scan source = .ok tokens) :
    ∃ location, statement.location = some location ∧ dialect.Places source location := by
  obtain ⟨inner, within, derived⟩ := standing
  have splits := Token.scan_iff.mp scanned
  obtain ⟨first, last, spans⟩ := @Node.Derives.spans dialect inner (.statement statement) derived
    (splits.areInTurn.sublist within.sublist) (splits.areNamed.subset within.subset)
  exact spans.inside within scanned

/-! ## Findings -/

theorem places_warning {statement : Statement} {range : Nat × Nat} (standing : StandsIn dialect tokens statement)
    (scanned : Token.scan source = .ok tokens)
    (located : statement.location = some (dialect.location range.1 range.2)) :
    dialect.Places source (dialect.warning range).location := by
  obtain ⟨location, same, placed⟩ := standing.inside scanned
  obtain rfl := Option.some.inj (located.symm.trans same)
  exact placed

theorem ofText_error_iff {error : LexicalError} :
    Token.ofText source = .error error ↔ Token.scan source = .error error := by
  rw [Token.ofText]
  cases Token.scan source with
  | error => rfl
  | ok => constructor <;> intro failed <;> cases failed

theorem hasRange_of_error {error : LexicalError} (whole : ¬ source.EndsInPair)
    (failed : Token.ofText source = .error error) : source.HasRange error.start error.stop :=
  (Token.scan_error (ofText_error_iff.mp failed)).resolve_right fun cut => whole cut.1

theorem places_found {tree : Block} (read : (parse source dialect).block = some tree) :
    ∀ diagnostic ∈ (parse source dialect).diagnostics, dialect.Places source diagnostic.location := by
  obtain ⟨tokens, scanned, derived⟩ := derives_of_parse read
  obtain ⟨ranges, -, found, each⟩ := parse_found read
  rw [found]
  intro diagnostic member
  obtain ⟨range, inside, rfl⟩ := List.mem_map.mp member
  obtain ⟨statement, part, located⟩ := List.mem_map.mp (each.subset (List.mem_map_of_mem inside))
  exact places_warning (derived.parts (List.mem_filter.mp part).1) scanned located

theorem Refusal.inside {ranges : List (Nat × Nat)} {fault : SyntaxFault} {location : Location}
    (whole : ¬ source.EndsInPair) (refusal : Refusal dialect source ranges fault location) :
    (∀ range ∈ ranges, dialect.Places source (dialect.warning range).location)
      ∧ dialect.Places source location := by
  cases refusal with
  | lexical failed => exact ⟨nofun, _, _, rfl, hasRange_of_error whole failed⟩
  | @token front behind token _ _ split known completed =>
    have here := hasRange_of_ofText split token (List.mem_append_right _ List.mem_cons_self)
    refine ⟨fun range member => ?_, _, _, rfl, here⟩
    obtain ⟨lexemes, scanned, same⟩ := Token.ofText_eq_ok_iff.mp split
    obtain ⟨statement, standing, -, located⟩ := completed range member
    exact places_warning (standing.widen (prefix_of_concat same).isInfix) scanned located

theorem places_refused (whole : ¬ source.EndsInPair) (unread : (parse source dialect).block = none) :
    ∀ diagnostic ∈ (parse source dialect).diagnostics, dialect.Places source diagnostic.location := by
  obtain ⟨ranges, fault, location, -, found, refusal⟩ := parse_refused unread
  obtain ⟨warnings, error⟩ := refusal.inside whole
  rw [found]
  intro diagnostic member
  obtain warning | last := List.mem_append.mp member
  · obtain ⟨range, inside, rfl⟩ := List.mem_map.mp warning
    exact warnings range inside
  · obtain rfl := List.mem_singleton.mp last
    exact error

theorem reportsInside_of_whole (whole : ¬ source.EndsInPair) : ReportsInside source dialect where
  tokens tokens read := hasRange_of_ofText read
  failure error failed := hasRange_of_error whole failed
  nodes tree read node inside := by
    obtain ⟨tokens, scanned, derived⟩ := derives_of_parse read
    have splits := Token.scan_iff.mp scanned
    obtain ⟨inner, first, last, within, spans, -⟩ :=
      (Node.Derives.block derived).isPlaced splits.areInTurn splits.areNamed inside
    exact spans.inside within scanned
  diagnostics := by
    cases read : (parse source dialect).block with
    | some tree => exact places_found read
    | none => exact places_refused whole read

/-! ## Texts that end in the middle of a pair -/

/-- The one finding in a text that ends in the middle of a pair is that its string is not
terminated. -/
theorem parse_endsInPair (ends : source.EndsInPair) (dialect : Dialect) :
    ∃ start < source.length, Token.ofText source = .error (Token.cutError start source.length)
      ∧ parse source dialect
        = ⟨none, [.error (.lexical .unterminatedString) (dialect.location start (source.length + 1))]⟩ := by
  obtain ⟨start, inside, failed⟩ := Token.scan_endsInPair ends
  refine ⟨start, inside, ofText_error_iff.mpr failed, ?_⟩
  rw [parse, failed]
  rfl

/-- Everything is reported inside the text exactly if it does not end in the middle of a pair. -/
theorem reportsInside_iff (source : Text) (dialect : Dialect) :
    ReportsInside source dialect ↔ ¬ source.EndsInPair := by
  refine ⟨fun inside ends => ?_, reportsInside_of_whole⟩
  obtain ⟨start, -, failed, -⟩ := parse_endsInPair ends dialect
  have stop := (inside.failure _ failed).2
  exact Nat.not_succ_le_self _ stop

def cutSource : Text := ⟨[CodeUnit.quote, CodeUnit.backslash]⟩

theorem reports_outside_cutSource :
    cutSource.length = 2 ∧ Token.ofText cutSource = .error ⟨.unterminatedString, 0, 3⟩
      ∧ (parse cutSource ⟨true, "a"⟩).diagnostics = [.error (.lexical .unterminatedString) (.ofOffsets 0 3 "a")]
      ∧ ¬ ReportsInside cutSource ⟨true, "a"⟩ := by
  have failed : Token.ofText cutSource = .error ⟨.unterminatedString, 0, 3⟩ := by decide
  refine ⟨rfl, failed, by decide, fun inside => ?_⟩
  exact absurd (inside.failure _ failed).2 (by decide)

end Ir

end ContractAsm

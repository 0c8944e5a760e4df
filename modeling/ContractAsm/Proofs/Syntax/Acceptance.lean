import ContractAsm.Proofs.Lexical.Scanning
import ContractAsm.Proofs.Syntax.Completeness
import ContractAsm.Proofs.Syntax.Soundness

/-!
# The parser accepts the grammar

A text is read as a block exactly if it splits into lexemes and these are derived as a
block, and the block that is read is the derived one. Tokens derive at most one block.
-/

namespace ContractAsm.Ir

open Grammar

variable {dialect : Dialect} {tokens : List Token} {tree : Block} {final : Token}

/-! ## Lists of tokens -/

/-- Two blocks that are derived from the same tokens are both what is read from these. -/
theorem Grammar.DerivesBlock.unique {other : Block} (first : DerivesBlock dialect tokens tree)
    (second : DerivesBlock dialect tokens other) : other = tree := by
  let start : Cursor := ⟨tokens, ⟨.eof, 0, 0⟩, 0, []⟩
  have read : Parser.program dialect (Parser.bound tokens) start = .ok tree _ :=
    Parser.program_complete first rfl
  rw [Parser.program_complete second rfl] at read
  injection read

theorem parseTokens_derived (closed : final.lexeme = .eof) (derived : DerivesBlock dialect tokens tree) :
    parseTokens dialect tokens final = ⟨some tree, tree.defaultOnlySwitches.map .onlyDefaultCase⟩ := by
  rw [parseTokens, Parser.program_complete derived closed]
  rfl

/-- Nothing is left behind a block that is read, since no token is the end mark. -/
theorem derives_of_parseTokens (closed : final.lexeme = .eof)
    (real : ∀ token ∈ tokens, token.lexeme ≠ .eof)
    (h : (parseTokens dialect tokens final).block = some tree) : DerivesBlock dialect tokens tree := by
  rw [parseTokens] at h
  cases read : Parser.program dialect (Parser.bound tokens) ⟨tokens, final, 0, []⟩ with
  | error => rw [read] at h; cases h
  | ok value after =>
    rw [read] at h
    cases h
    obtain ⟨ended, taken, derived, passed⟩ := Parser.program_sound closed read
    obtain ⟨rest, last, final, warnings⟩ := after
    have split : tokens = taken ++ rest := passed.rest
    cases rest with
    | nil => rwa [split, List.append_nil]
    | cons token rest =>
      have member : token ∈ tokens := by
        rw [split]
        exact List.mem_append_right _ List.mem_cons_self
      exact (real token member ended).elim

/-! ## Texts -/

variable {source : Text}

theorem parse_scanned (scanned : Token.scan source = .ok tokens) :
    parse source dialect = parseTokens dialect tokens (Token.atEnd source) := by
  rw [parse, scanned]

theorem parse_derived (scanned : Token.scan source = .ok tokens) (derived : DerivesBlock dialect tokens tree) :
    parse source dialect = ⟨some tree, tree.defaultOnlySwitches.map .onlyDefaultCase⟩ := by
  rw [parse_scanned scanned, parseTokens_derived rfl derived]

theorem derives_of_parse (h : (parse source dialect).block = some tree) :
    ∃ tokens, Token.scan source = .ok tokens ∧ DerivesBlock dialect tokens tree := by
  cases scanned : Token.scan source with
  | error => rw [parse, scanned] at h; cases h
  | ok tokens =>
    rw [parse_scanned scanned] at h
    exact ⟨tokens, rfl, derives_of_parseTokens rfl (Token.scan_iff.mp scanned).ne_eof h⟩

/-- A block is read from a text exactly if the text splits into lexemes that are derived as
a block, and the block that is read is the only one that is derived from them. -/
theorem parse_accepts_grammar (source : Text) (dialect : Dialect) :
    ((parse source dialect).block.isSome = true ↔
        ∃ tokens tree, Token.scan source = .ok tokens ∧ DerivesBlock dialect tokens tree) ∧
      ∀ tree, (parse source dialect).block = some tree ↔
        ∃ tokens, Token.scan source = .ok tokens ∧
          ∀ other, DerivesBlock dialect tokens other ↔ other = tree := by
  refine ⟨⟨fun h => ?_, ?_⟩, fun tree => ⟨fun h => ?_, ?_⟩⟩
  · obtain ⟨tree, h⟩ := Option.isSome_iff_exists.mp h
    obtain ⟨tokens, scanned, derived⟩ := derives_of_parse h
    exact ⟨tokens, tree, scanned, derived⟩
  · rintro ⟨tokens, tree, scanned, derived⟩
    rw [parse_derived scanned derived]
    rfl
  · obtain ⟨tokens, scanned, derived⟩ := derives_of_parse h
    refine ⟨tokens, scanned, fun other => ⟨derived.unique, ?_⟩⟩
    rintro rfl
    exact derived
  · rintro ⟨tokens, scanned, only⟩
    rw [parse_derived scanned ((only tree).mpr rfl)]

end ContractAsm.Ir

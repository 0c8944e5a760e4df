import ContractAsm.Proofs.Lexical.Trivia
import ContractAsm.Proofs.Syntax.Agreement

/-!
# What is found in a text

Every text is read to an end. Either its block is read, and each switch of it with a default alone
is warned of once, or the reading fails with one error behind the warnings of the switches that had
been read by then.
-/

namespace ContractAsm.Ir

open Grammar

variable {source : Text} {dialect : Dialect} {tree : Block} {tokens : List Token}

def Dialect.warning (dialect : Dialect) (range : Nat × Nat) : Diagnostic :=
  .onlyDefaultCase (dialect.location range.1 range.2)

/-- Whether the ranges end in turn. -/
def EndInTurn (ranges : List (Nat × Nat)) : Prop := ranges.Pairwise fun first second => first.2 < second.2

/-- Why a text has no block: it does not split into lexemes, in which case nothing is warned of, or
one of its tokens cannot stand where it does. The ranges are of switches in front of that token. -/
inductive Refusal (dialect : Dialect) (source : Text) : List (Nat × Nat) → SyntaxFault → Location → Prop where
  | lexical {error : LexicalError} (failed : Token.ofText source = .error error) :
      Refusal dialect source [] (.lexical error.fault) (dialect.location error.start error.stop)
  | token {front behind : List Token} {token : Token} {ranges : List (Nat × Nat)} {fault : SyntaxFault}
      (split : Token.ofText source = .ok (front ++ token :: behind)) (known : fault ≠ .exhausted)
      (completed : ∀ range ∈ ranges, ∃ statement, StandsIn dialect front statement
        ∧ statement.isDefaultOnly = true ∧ statement.location = some (dialect.location range.1 range.2)) :
      Refusal dialect source ranges fault (dialect.location token.start token.stop)

theorem Warned.endInTurn {places : List Location} (warned : Warned dialect tokens places)
    (inTurn : tokens.Pairwise Token.EndsBefore) :
    ∃ ranges, EndInTurn ranges ∧ places = ranges.map (fun range => dialect.location range.1 range.2)
      ∧ places.map Diagnostic.onlyDefaultCase = ranges.map dialect.warning := by
  obtain ⟨ranges, rfl, ordered, -⟩ := warned.ranges inTurn
  exact ⟨ranges, ordered, rfl, List.map_map⟩

/-- The places that a derived block is warned of are those of its switches with a default alone. -/
theorem Grammar.DerivesBlock.warnings_perm (derived : DerivesBlock dialect tokens tree) :
    (tree.defaultOnlySwitches.map some).Perm ((tree.parts.filter Statement.isDefaultOnly).map Statement.location) := by
  rw [← map_warningsOf fun statement inside => ?located]
  · exact tree.warnings_perm.map some
  case located =>
    obtain ⟨inner, -, written⟩ := derived.parts inside
    obtain ⟨first, rest, -, place⟩ := written.location
    rw [place]
    exact Option.some_ne_none _

theorem prefix_of_concat {front behind : List Token} {token final : Token}
    (whole : tokens ++ [final] = front ++ token :: behind) : front <+: tokens := by
  have lengths := congrArg List.length whole
  simp only [List.length_append, List.length_cons, List.length_nil] at lengths
  exact List.prefix_of_prefix_length_le ⟨token :: behind, whole.symm⟩ (List.prefix_append tokens [final]) (by omega)

theorem parse_found (h : (parse source dialect).block = some tree) :
    ∃ ranges, EndInTurn ranges ∧ parse source dialect = ⟨some tree, ranges.map dialect.warning⟩
      ∧ (ranges.map fun range => some (dialect.location range.1 range.2)).Perm
        ((tree.parts.filter Statement.isDefaultOnly).map Statement.location) := by
  obtain ⟨tokens, scanned, derived⟩ := derives_of_parse h
  have inTurn := (Token.scan_iff.mp scanned).endInTurn
  obtain ⟨inner, closing, rfl, warned⟩ := derived.warned
  obtain ⟨ranges, ordered, places, warnings⟩ := warned.endInTurn (List.pairwise_append.mp inTurn).1
  refine ⟨ranges, ordered, ?_, ?_⟩
  · rw [parse_derived scanned derived, warnings]
  · have same := derived.warnings_perm
    rwa [places, List.map_map] at same

theorem parse_refused (h : (parse source dialect).block = none) :
    ∃ ranges fault location, EndInTurn ranges
      ∧ parse source dialect = ⟨none, ranges.map dialect.warning ++ [.error fault location]⟩
      ∧ Refusal dialect source ranges fault location := by
  cases scanned : Token.scan source with
  | error error =>
    have failed : Token.ofText source = .error error := by rw [Token.ofText, scanned]; rfl
    refine ⟨[], _, _, .nil, ?_, .lexical failed⟩
    rw [parse, scanned]
    rfl
  | ok tokens =>
    have split : Token.ofText source = .ok (tokens ++ [Token.atEnd source]) := by
      rw [Token.ofText, scanned]; rfl
    rw [parse_scanned scanned, parseTokens] at h ⊢
    cases ended : Parser.program dialect (Parser.bound tokens) ⟨tokens, Token.atEnd source, 0, []⟩ with
    | ok tree after => rw [ended] at h; cases h
    | error error after =>
      obtain ⟨known, front, token, behind, found, whole, start, stop, warned, warnings⟩ :=
        Parser.whole_refuses rfl ended
      rw [whole] at split
      have inTurn : front.Pairwise Token.EndsBefore :=
        (Token.scan_iff.mp scanned).endInTurn.sublist (prefix_of_concat whole).sublist
      obtain ⟨ranges, ordered, places, found⟩ := warned.endInTurn inTurn
      refine ⟨ranges, error.fault, _, ordered, ?_, .token split known fun range member => ?_⟩
      · simp only [warnings, List.nil_append, found, start, stop]
      · exact warned.standsIn _ (places ▸ List.mem_map_of_mem member)

/-- Reading ends for every text, without a defect. Either there is a block, and the findings are
exactly one warning for each switch of it with a default alone, in the order in which these end; or
there is none, and behind the warnings of switches that were read completely stands the one error. -/
theorem parse_diagnostics_exact (source : Text) (dialect : Dialect) :
    Indexed.parse source dialect = some (.ok (parse source dialect))
      ∧ ∃ ranges, EndInTurn ranges ∧
        ((∃ tree, parse source dialect = ⟨some tree, ranges.map dialect.warning⟩
            ∧ (ranges.map fun range => some (dialect.location range.1 range.2)).Perm
              ((tree.parts.filter Statement.isDefaultOnly).map Statement.location))
          ∨ ∃ fault location, parse source dialect = ⟨none, ranges.map dialect.warning ++ [.error fault location]⟩
            ∧ Refusal dialect source ranges fault location) := by
  refine ⟨Indexed.parse_eq source dialect, ?_⟩
  cases block : (parse source dialect).block with
  | some tree =>
    obtain ⟨ranges, ordered, found, each⟩ := parse_found block
    exact ⟨ranges, ordered, .inl ⟨tree, found, each⟩⟩
  | none =>
    obtain ⟨ranges, fault, location, ordered, found, refusal⟩ := parse_refused block
    exact ⟨ranges, ordered, .inr ⟨fault, location, found, refusal⟩⟩

end ContractAsm.Ir

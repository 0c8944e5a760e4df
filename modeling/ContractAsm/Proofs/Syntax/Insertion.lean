import ContractAsm.Proofs.Lexical.Trivia
import ContractAsm.Proofs.Syntax.Acceptance
import ContractAsm.Proofs.Syntax.Lexemes

/-!
# Reading goes by lexemes

What is derived from tokens is derived, but for its locations, from any tokens of the same
lexemes: where they stand decides nothing. So blanks and comments between lexemes do not matter
to what is read.
-/

namespace ContractAsm.Ir

/-! ## The same lexemes at other places -/

/-- Tokens with the same lexemes in the same order. -/
def SameLexemes (tokens others : List Token) : Prop := others.map Token.lexeme = tokens.map Token.lexeme

section

variable {token : Token} {tokens first second others : List Token}

theorem SameLexemes.symm (same : SameLexemes tokens others) : SameLexemes others tokens := Eq.symm same

theorem SameLexemes.nil (same : SameLexemes [] others) : others = [] := List.map_eq_nil_iff.mp same

theorem SameLexemes.cons (same : SameLexemes (token :: tokens) others) :
    ∃ other rest, others = other :: rest ∧ other.lexeme = token.lexeme ∧ SameLexemes tokens rest :=
  List.map_eq_cons_iff.mp same

theorem SameLexemes.append (same : SameLexemes (first ++ second) others) :
    ∃ front back, others = front ++ back ∧ SameLexemes first front ∧ SameLexemes second back := by
  rw [SameLexemes, List.map_append] at same
  exact List.map_eq_append_iff.mp same

end

open Grammar

variable {dialect : Dialect}

/-! ## Types and names -/

section

variable {tokens others : List Token}

theorem Grammar.DerivesType.respelled {type : Text} (derived : DerivesType dialect tokens type)
    (same : SameLexemes tokens others) : DerivesType dialect others type := by
  cases derived with
  | typed mode colonMark typeName =>
    obtain ⟨_, _, rfl, colon, same⟩ := same.cons
    obtain ⟨_, _, rfl, name, same⟩ := same.cons
    obtain rfl := same.nil
    exact .typed mode (colon.trans colonMark) (name.trans typeName)
  | untyped mode =>
    obtain rfl := same.nil
    exact .untyped mode

theorem Grammar.DerivesTypedName.respelled {declared : TypedName}
    (derived : DerivesTypedName dialect tokens declared) (same : SameLexemes tokens others) :
    DerivesTypedName dialect others declared := by
  cases derived with
  | mk ident typing =>
    obtain ⟨_, _, rfl, name, same⟩ := same.cons
    exact .mk (name.trans ident) (typing.respelled same)

theorem Grammar.DerivesFurtherTypedNames.respelled {names : List TypedName}
    (derived : DerivesFurtherTypedNames dialect tokens names) (same : SameLexemes tokens others) :
    DerivesFurtherTypedNames dialect others names := by
  induction derived generalizing others with
  | none =>
    obtain rfl := same.nil
    exact .none
  | some commaMark head _ ih =>
    obtain ⟨_, _, rfl, comma, same⟩ := same.cons
    obtain ⟨_, _, rfl, first, rest⟩ := same.append
    exact .some (comma.trans commaMark) (head.respelled first) (ih rest)

theorem Grammar.DerivesTypedNames.respelled {names : List TypedName}
    (derived : DerivesTypedNames dialect tokens names) (same : SameLexemes tokens others) :
    DerivesTypedNames dialect others names := by
  cases derived with
  | mk head tail =>
    obtain ⟨_, _, rfl, first, rest⟩ := same.append
    exact .mk (head.respelled first) (tail.respelled rest)

theorem Grammar.DerivesFurtherNames.respelled {names : List Text} (derived : DerivesFurtherNames tokens names)
    (same : SameLexemes tokens others) : DerivesFurtherNames others names := by
  induction derived generalizing others with
  | none =>
    obtain rfl := same.nil
    exact .none
  | some commaMark ident _ ih =>
    obtain ⟨_, _, rfl, comma, same⟩ := same.cons
    obtain ⟨_, _, rfl, name, rest⟩ := same.cons
    exact .some (comma.trans commaMark) (name.trans ident) (ih rest)

theorem Grammar.DerivesParameters.respelled {names : List TypedName}
    (derived : DerivesParameters dialect tokens names) (same : SameLexemes tokens others) :
    DerivesParameters dialect others names := by
  cases derived with
  | none =>
    obtain rfl := same.nil
    exact .none
  | some list => exact .some (list.respelled same)

theorem Grammar.DerivesResults.respelled {names : List TypedName} (derived : DerivesResults dialect tokens names)
    (same : SameLexemes tokens others) : DerivesResults dialect others names := by
  cases derived with
  | none =>
    obtain rfl := same.nil
    exact .none
  | some arrowMark list =>
    obtain ⟨_, _, rfl, arrow, same⟩ := same.cons
    exact .some (arrow.trans arrowMark) (list.respelled same)

/-! ## Expressions -/

theorem Grammar.DerivesLiteral.respelled {value : Literal} (derived : DerivesLiteral dialect tokens value)
    (same : SameLexemes tokens others) :
    ∃ location, DerivesLiteral dialect others { value with location := some location } := by
  cases derived with
  | mk lexeme typed =>
    obtain ⟨_, _, rfl, head, same⟩ := same.cons
    exact ⟨_, .mk (head ▸ lexeme) (typed.respelled same)⟩

end

mutual

theorem Grammar.DerivesExpression.respelled {tokens others : List Token} {expression : Expression}
    (derived : DerivesExpression dialect tokens expression) (same : SameLexemes tokens others) :
    ∃ found, DerivesExpression dialect others found
      ∧ found.withoutLocations = expression.withoutLocations := by
  cases derived with
  | literal derived =>
    obtain ⟨location, derives⟩ := derived.respelled same
    exact ⟨_, .literal derives, rfl⟩
  | identifier ident =>
    obtain ⟨_, _, rfl, name, same⟩ := same.cons
    obtain rfl := same.nil
    exact ⟨_, .identifier (name.trans ident), rfl⟩
  | call ident openMark list closeMark =>
    obtain ⟨_, _, rfl, name, same⟩ := same.cons
    obtain ⟨_, _, rfl, opening, same⟩ := same.cons
    obtain ⟨_, _, rfl, inner, same⟩ := same.append
    obtain ⟨_, _, rfl, closing, same⟩ := same.cons
    obtain rfl := same.nil
    obtain ⟨found, derives, equal⟩ := DerivesArguments.respelled list inner
    exact ⟨_, .call (name.trans ident) (opening.trans openMark) derives (closing.trans closeMark),
      by simp only [Expression.withoutLocations, equal]⟩

theorem Grammar.DerivesArguments.respelled {tokens others : List Token} {arguments : List Expression}
    (derived : DerivesArguments dialect tokens arguments) (same : SameLexemes tokens others) :
    ∃ found, DerivesArguments dialect others found
      ∧ withoutLocationsEach found = withoutLocationsEach arguments := by
  cases derived with
  | none =>
    obtain rfl := same.nil
    exact ⟨[], .none, rfl⟩
  | some head tail =>
    obtain ⟨_, _, rfl, first, rest⟩ := same.append
    obtain ⟨_, derives, equal⟩ := DerivesExpression.respelled head first
    obtain ⟨_, list, equalRest⟩ := DerivesFurtherArguments.respelled tail rest
    exact ⟨_, .some derives list, by simp only [withoutLocationsEach, equal, equalRest]⟩

theorem Grammar.DerivesFurtherArguments.respelled {tokens others : List Token} {arguments : List Expression}
    (derived : DerivesFurtherArguments dialect tokens arguments) (same : SameLexemes tokens others) :
    ∃ found, DerivesFurtherArguments dialect others found
      ∧ withoutLocationsEach found = withoutLocationsEach arguments := by
  cases derived with
  | none =>
    obtain rfl := same.nil
    exact ⟨[], .none, rfl⟩
  | some commaMark head tail =>
    obtain ⟨_, _, rfl, comma, same⟩ := same.cons
    obtain ⟨_, _, rfl, first, rest⟩ := same.append
    obtain ⟨_, derives, equal⟩ := DerivesExpression.respelled head first
    obtain ⟨_, list, equalRest⟩ := DerivesFurtherArguments.respelled tail rest
    exact ⟨_, .some (comma.trans commaMark) derives list,
      by simp only [withoutLocationsEach, equal, equalRest]⟩

end

/-! ## Statements -/

theorem Grammar.DerivesExpression.respelledCall {tokens others : List Token} {name : Text}
    {arguments : List Expression} {location : Option Location}
    (derived : DerivesExpression dialect tokens (.functionCall name arguments location))
    (same : SameLexemes tokens others) :
    ∃ found place, DerivesExpression dialect others (.functionCall name found place)
      ∧ withoutLocationsEach found = withoutLocationsEach arguments := by
  obtain ⟨found, derives, equal⟩ := derived.respelled same
  cases found with
  | functionCall =>
    injection equal with sameName sameArguments
    subst sameName
    exact ⟨_, _, derives, sameArguments⟩
  | literal | identifier | unrecognised => contradiction

theorem casesWithoutLocations_eq_nil {cases : List Case} : casesWithoutLocations cases = [] ↔ cases = [] := by
  cases cases with
  | nil => exact ⟨fun _ => rfl, fun _ => rfl⟩
  | cons => exact ⟨nofun, nofun⟩

mutual

/-- Where the tokens stand decides nothing but the locations. -/
theorem Grammar.DerivesBlock.respelled {tokens others : List Token} {block : Block}
    (derived : DerivesBlock dialect tokens block) (same : SameLexemes tokens others) :
    ∃ found, DerivesBlock dialect others found ∧ found.withoutLocations = block.withoutLocations := by
  cases derived with
  | braces openMark list closeMark =>
    obtain ⟨_, _, rfl, opening, same⟩ := same.cons
    obtain ⟨_, _, rfl, inner, same⟩ := same.append
    obtain ⟨_, _, rfl, closing, same⟩ := same.cons
    obtain rfl := same.nil
    obtain ⟨_, derives, equal⟩ := DerivesStatements.respelled list inner
    exact ⟨_, .braces (opening.trans openMark) derives (closing.trans closeMark),
      by simp only [Block.withoutLocations, equal]⟩

theorem Grammar.DerivesStatements.respelled {tokens others : List Token} {statements : List Statement}
    (derived : DerivesStatements dialect tokens statements) (same : SameLexemes tokens others) :
    ∃ found, DerivesStatements dialect others found
      ∧ statementsWithoutLocations found = statementsWithoutLocations statements := by
  cases derived with
  | none =>
    obtain rfl := same.nil
    exact ⟨[], .none, rfl⟩
  | some head tail =>
    obtain ⟨_, _, rfl, first, rest⟩ := same.append
    obtain ⟨_, derives, equal⟩ := DerivesStatement.respelled head first
    obtain ⟨_, list, equalRest⟩ := DerivesStatements.respelled tail rest
    exact ⟨_, .some derives list, by simp only [statementsWithoutLocations, equal, equalRest]⟩

theorem Grammar.DerivesStatement.respelled {tokens others : List Token} {statement : Statement}
    (derived : DerivesStatement dialect tokens statement) (same : SameLexemes tokens others) :
    ∃ found, DerivesStatement dialect others found
      ∧ found.withoutLocations = statement.withoutLocations := by
  cases derived with
  | block derived =>
    obtain ⟨_, derives, equal⟩ := DerivesBlock.respelled derived same
    exact ⟨_, .block derives, by simp only [Statement.withoutLocations, equal]⟩
  | functionDefinition keyword named openMark taken closeMark given derived =>
    obtain ⟨_, _, rfl, word, same⟩ := same.cons
    obtain ⟨_, _, rfl, ident, same⟩ := same.cons
    obtain ⟨_, _, rfl, opening, same⟩ := same.cons
    obtain ⟨_, _, rfl, inner, same⟩ := same.append
    obtain ⟨_, _, rfl, closing, same⟩ := same.cons
    obtain ⟨_, _, rfl, returned, body⟩ := same.append
    obtain ⟨_, derives, equal⟩ := DerivesBlock.respelled derived body
    exact ⟨_, .functionDefinition (word.trans keyword) (ident.trans named) (opening.trans openMark)
        (taken.respelled inner) (closing.trans closeMark) (given.respelled returned) derives,
      by simp only [Statement.withoutLocations, equal]⟩
  | declaration keyword list =>
    obtain ⟨_, _, rfl, word, same⟩ := same.cons
    exact ⟨_, .declaration (word.trans keyword) (list.respelled same), rfl⟩
  | initialisation keyword list assignMark derived =>
    obtain ⟨_, _, rfl, word, same⟩ := same.cons
    obtain ⟨_, _, rfl, names, same⟩ := same.append
    obtain ⟨_, _, rfl, mark, right⟩ := same.cons
    obtain ⟨_, derives, equal⟩ := derived.respelled right
    exact ⟨_, .initialisation (word.trans keyword) (list.respelled names) (mark.trans assignMark) derives,
      by simp only [Statement.withoutLocations, Option.map_some, equal]⟩
  | assignment ident list assignMark derived =>
    obtain ⟨_, _, rfl, first, same⟩ := same.cons
    obtain ⟨_, _, rfl, names, same⟩ := same.append
    obtain ⟨_, _, rfl, mark, right⟩ := same.cons
    obtain ⟨_, derives, equal⟩ := derived.respelled right
    exact ⟨_, .assignment (first.trans ident) (list.respelled names) (mark.trans assignMark) derives,
      by simp only [Statement.withoutLocations, equal]⟩
  | call derived =>
    obtain ⟨_, _, derives, equal⟩ := derived.respelledCall same
    exact ⟨_, .call derives, by simp only [Statement.withoutLocations, Expression.withoutLocations, equal]⟩
  | «switch» keyword derived list some =>
    obtain ⟨_, _, rfl, word, same⟩ := same.cons
    obtain ⟨_, _, rfl, tested, branches⟩ := same.append
    obtain ⟨_, derives, equal⟩ := derived.respelled tested
    obtain ⟨found, derivesCases, equalCases⟩ := DerivesCases.respelled list branches
    have remains : found ≠ [] := by
      rwa [ne_eq, ← casesWithoutLocations_eq_nil, equalCases, casesWithoutLocations_eq_nil]
    exact ⟨_, .switch (word.trans keyword) derives derivesCases remains,
      by simp only [Statement.withoutLocations, equal, equalCases]⟩
  | ifThen keyword tested derived =>
    obtain ⟨_, _, rfl, word, same⟩ := same.cons
    obtain ⟨_, _, rfl, condition, body⟩ := same.append
    obtain ⟨_, derives, equal⟩ := tested.respelled condition
    obtain ⟨_, derivesBody, equalBody⟩ := DerivesBlock.respelled derived body
    exact ⟨_, .ifThen (word.trans keyword) derives derivesBody,
      by simp only [Statement.withoutLocations, equal, equalBody]⟩
  | forLoop keyword prepared tested advanced derived =>
    obtain ⟨_, _, rfl, word, same⟩ := same.cons
    obtain ⟨_, _, rfl, before, same⟩ := same.append
    obtain ⟨_, _, rfl, condition, same⟩ := same.append
    obtain ⟨_, _, rfl, behind, body⟩ := same.append
    obtain ⟨_, derivesPre, equalPre⟩ := DerivesBlock.respelled prepared before
    obtain ⟨_, derives, equal⟩ := tested.respelled condition
    obtain ⟨_, derivesPost, equalPost⟩ := DerivesBlock.respelled advanced behind
    obtain ⟨_, derivesBody, equalBody⟩ := DerivesBlock.respelled derived body
    exact ⟨_, .forLoop (word.trans keyword) derivesPre derives derivesPost derivesBody,
      by simp only [Statement.withoutLocations, equalPre, equal, equalPost, equalBody]⟩
  | breakLoop keyword =>
    obtain ⟨_, _, rfl, word, same⟩ := same.cons
    obtain rfl := same.nil
    exact ⟨_, .breakLoop (word.trans keyword), rfl⟩
  | continueLoop keyword =>
    obtain ⟨_, _, rfl, word, same⟩ := same.cons
    obtain rfl := same.nil
    exact ⟨_, .continueLoop (word.trans keyword), rfl⟩

theorem Grammar.DerivesCases.respelled {tokens others : List Token} {cases : List Case}
    (derived : DerivesCases dialect tokens cases) (same : SameLexemes tokens others) :
    ∃ found, DerivesCases dialect others found
      ∧ casesWithoutLocations found = casesWithoutLocations cases := by
  cases derived with
  | none =>
    obtain rfl := same.nil
    exact ⟨[], .none, rfl⟩
  | default keyword derived =>
    obtain ⟨_, _, rfl, word, body⟩ := same.cons
    obtain ⟨_, derives, equal⟩ := DerivesBlock.respelled derived body
    exact ⟨_, .default (word.trans keyword) derives,
      by simp only [casesWithoutLocations, Case.withoutLocations, equal]⟩
  | case keyword tested derived tail =>
    obtain ⟨_, _, rfl, word, same⟩ := same.cons
    obtain ⟨_, _, rfl, value, same⟩ := same.append
    obtain ⟨_, _, rfl, body, rest⟩ := same.append
    obtain ⟨_, derivesValue⟩ := tested.respelled value
    obtain ⟨_, derives, equal⟩ := DerivesBlock.respelled derived body
    obtain ⟨_, list, equalRest⟩ := DerivesCases.respelled tail rest
    refine ⟨_, .case (word.trans keyword) derivesValue derives list, ?_⟩
    simp only [casesWithoutLocations, Case.withoutLocations, Option.map_some, Expression.withoutLocations,
      equal, equalRest]

end

/-! ## Whole texts -/

variable {source other trivia : Text} {tokens others : List Token} {place : Nat} {token : Token}

/-- Texts with the same lexemes are read alike. -/
theorem parse_of_sameLexemes {tree : Block} (scanned : Token.scan source = .ok tokens)
    (scannedOther : Token.scan other = .ok others) (same : SameLexemes tokens others)
    (read : (parse source dialect).block = some tree) :
    ∃ found, (parse other dialect).block = some found ∧ found.withoutLocations = tree.withoutLocations := by
  obtain ⟨_, again, derived⟩ := derives_of_parse read
  cases scanned.symm.trans again
  obtain ⟨found, derives, equal⟩ := derived.respelled same
  rw [parse_derived scannedOther derives]
  exact ⟨found, rfl, equal⟩

theorem withoutLocations_parse (scanned : Token.scan source = .ok tokens)
    (scannedOther : Token.scan other = .ok others) (same : SameLexemes tokens others) :
    (parse other dialect).block.map Block.withoutLocations
      = (parse source dialect).block.map Block.withoutLocations := by
  cases read : (parse source dialect).block with
  | some tree =>
    obtain ⟨found, readOther, equal⟩ := parse_of_sameLexemes scanned scannedOther same read
    rw [readOther, Option.map_some, Option.map_some, equal]
  | none =>
    cases readOther : (parse other dialect).block with
    | none => rfl
    | some tree =>
      obtain ⟨_, again, -⟩ := parse_of_sameLexemes scannedOther scanned same.symm readOther
      rw [read] at again
      contradiction

/-- Blanks and closed comments may be put in wherever a lexeme starts or ends. The lexemes stay
the same, and the tokens from there on stand so many units further on; one dialect accepts both
texts or neither, and reads the same tree up to locations. -/
theorem parse_insert_trivia (read : Token.ofText source = .ok tokens) (member : token ∈ tokens)
    (noEnd : token.lexeme ≠ .eof) (border : place = token.start ∨ place = token.stop)
    (isTrivia : Token.IsGap false trivia.units) :
    Token.ofText (source.insert place trivia) = .ok (tokens.map (Token.pushed place trivia.length))
      ∧ ∀ dialect, (parse (source.insert place trivia) dialect).block.map Block.withoutLocations
          = (parse source dialect).block.map Block.withoutLocations := by
  refine ⟨Token.ofText_insert read member noEnd border isTrivia, fun dialect => ?_⟩
  obtain ⟨lexemes, scanned, rfl⟩ := Token.ofText_eq_ok_iff.mp read
  obtain standing | last := List.mem_append.mp member
  · obtain ⟨-, scannedOther⟩ := Token.scan_insert scanned standing border isTrivia
    refine withoutLocations_parse scanned scannedOther ?_
    simp [SameLexemes, Function.comp_def]
  · obtain rfl := List.mem_singleton.mp last
    exact absurd rfl noEnd

def testedSource : Text := "\x7bif x\x7b\x7d\x7d"

def commentedGap : Text := "//*/\n "

theorem parse_insert_trivia_tested :
    Token.IsGap false commentedGap.units
      ∧ Token.ofText (testedSource.insert 3 commentedGap) = .ok
          [⟨.punctuation .openBrace, 0, 1⟩, ⟨.keyword .ifWord, 1, 3⟩, ⟨.identifier "x", 10, 11⟩,
            ⟨.punctuation .openBrace, 11, 12⟩, ⟨.punctuation .closeBrace, 12, 13⟩,
            ⟨.punctuation .closeBrace, 13, 14⟩, ⟨.eof, 14, 14⟩] := by
  have isTrivia : Token.IsGap false commentedGap.units :=
    @Token.IsGap.line false [CodeUnit.asterisk, CodeUnit.slash] [CodeUnit.space] (by decide) (.blank rfl .nil)
  have read : Token.ofText testedSource = .ok
      [⟨.punctuation .openBrace, 0, 1⟩, ⟨.keyword .ifWord, 1, 3⟩, ⟨.identifier "x", 4, 5⟩,
        ⟨.punctuation .openBrace, 5, 6⟩, ⟨.punctuation .closeBrace, 6, 7⟩,
        ⟨.punctuation .closeBrace, 7, 8⟩, ⟨.eof, 8, 8⟩] := rfl
  -- put in where the keyword ends
  exact ⟨isTrivia,
    (parse_insert_trivia read (List.mem_cons_of_mem _ List.mem_cons_self) nofun (.inr rfl) isTrivia).1⟩

end ContractAsm.Ir

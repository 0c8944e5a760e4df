import ContractAsm.Proofs.Lexical.Ranges
import ContractAsm.Proofs.Syntax.Slices

/-!
# Switches that are warned of

A switch with a default alone is warned of when its last token has been taken. So the places of
the warnings are those of all such switches of a tree, ordered by the ends of the switches.
-/

namespace ContractAsm

namespace Token

def EndsBefore (first second : Token) : Prop := first.stop < second.stop

theorem Splits.endInTurn {input : List CodeUnit} {pos : Nat} {tokens : List Token}
    (splits : Splits input pos tokens) : tokens.Pairwise EndsBefore := by
  have inTurn := splits.areInTurn
  refine inTurn.apart.imp_of_mem fun {first second} _ member before => ?_
  exact Nat.lt_of_le_of_lt before (inTurn.nonempty second member)

end Token

namespace Ir

/-! ## Switches of a tree -/

def Statement.isDefaultOnly : Statement → Bool
  | .switch _ [only] _ => only.isDefault
  | _ => false

def Statement.warning? (statement : Statement) : Option Location :=
  if statement.isDefaultOnly then statement.location else none

/-- The places of those statements in a list that are warned of. -/
def warningsOf (statements : List Statement) : List Location := statements.filterMap Statement.warning?

theorem warningsOf_append (first second : List Statement) :
    warningsOf (first ++ second) = warningsOf first ++ warningsOf second := List.filterMap_append

theorem warningsOf_cons {statement : Statement} (quiet : statement.isDefaultOnly = false)
    (rest : List Statement) : warningsOf (statement :: rest) = warningsOf rest := by
  have none : statement.warning? = none := by rw [Statement.warning?, quiet, if_neg Bool.false_ne_true]
  exact List.filterMap_cons_none none

theorem warningsOf_switch (value : Expression) (cases : List Case) (location : Option Location)
    (rest : List Statement) :
    warningsOf (.switch value cases location :: rest) = defaultOnly cases location ++ warningsOf rest := by
  match cases with
  | [] | _ :: _ :: _ => exact warningsOf_cons rfl rest
  | [only] =>
    rw [defaultOnly]
    cases default : only.isDefault with
    | false => exact @warningsOf_cons (.switch value [only] location) default rest
    | true =>
      rw [warningsOf, List.filterMap_cons, Statement.warning?, Statement.isDefaultOnly, default, if_pos rfl,
        if_pos rfl]
      cases location <;> rfl

mutual

/-- The warnings of a tree are those of its parts, in another order. -/
theorem Statement.warnings_perm (statement : Statement) :
    statement.defaultOnlySwitches.Perm (warningsOf statement.parts) := by
  cases statement with
  | functionDefinition _ _ _ body =>
    rw [Statement.parts, warningsOf_cons rfl]
    exact Block.warnings_perm body
  | ifThen _ body =>
    rw [Statement.parts, warningsOf_cons rfl]
    exact Block.warnings_perm body
  | case case =>
    rw [Statement.parts, warningsOf_cons rfl]
    exact Case.warnings_perm case
  | «switch» value cases location =>
    rw [Statement.parts, warningsOf_switch]
    exact List.perm_append_comm.trans ((cases_warnings_perm cases).append_left _)
  | forLoop pre _ post body =>
    rw [Statement.parts, warningsOf_cons rfl, warningsOf_append, warningsOf_append]
    exact (Block.warnings_perm pre).append ((Block.warnings_perm post).append (Block.warnings_perm body))
  | block block => exact Block.warnings_perm block
  | expression | variableDeclaration | assignment | breakLoop | continueLoop | inlineAssembly | unrecognised =>
    exact .nil

theorem Case.warnings_perm (case : Case) : case.defaultOnlySwitches.Perm (warningsOf case.parts) := by
  cases case with
  | mk _ body => exact Block.warnings_perm body
  | other statement => exact Statement.warnings_perm statement

theorem Block.warnings_perm (block : Block) : block.defaultOnlySwitches.Perm (warningsOf block.parts) := by
  cases block with
  | mk statements =>
    rw [Block.parts, warningsOf_cons rfl]
    exact statements_warnings_perm statements

theorem statements_warnings_perm (statements : List Statement) :
    (statementsDefaultOnlySwitches statements).Perm (warningsOf (statementsParts statements)) := by
  cases statements with
  | nil => exact .nil
  | cons statement rest =>
    rw [statementsParts, warningsOf_append]
    exact (Statement.warnings_perm statement).append (statements_warnings_perm rest)

theorem cases_warnings_perm (cases : List Case) :
    (casesDefaultOnlySwitches cases).Perm (warningsOf (casesParts cases)) := by
  cases cases with
  | nil => exact .nil
  | cons case rest =>
    rw [casesParts, warningsOf_append]
    exact (Case.warnings_perm case).append (cases_warnings_perm rest)

end

theorem map_warningsOf {statements : List Statement}
    (located : ∀ statement ∈ statements, statement.location ≠ none) :
    (warningsOf statements).map some = (statements.filter Statement.isDefaultOnly).map Statement.location := by
  induction statements with
  | nil => rfl
  | cons statement rest ih =>
    obtain ⟨here, others⟩ := List.forall_mem_cons.mp located
    cases default : statement.isDefaultOnly with
    | false => rw [warningsOf_cons default, List.filter_cons_of_neg (by simp [default]), ih others]
    | true =>
      obtain ⟨place, at'⟩ := Option.ne_none_iff_exists'.mp here
      have warning : statement.warning? = some place := by rw [Statement.warning?, default, if_pos rfl, at']
      rw [warningsOf, List.filterMap_cons_some warning, List.filter_cons_of_pos default, List.map_cons,
        List.map_cons, at']
      exact congrArg (some place :: ·) (ih others)

open Grammar

variable {dialect : Dialect}

theorem defaultOnly_valued (value : Expression) (body : Block) (place : Option Location) (others : List Case)
    (location : Option Location) : defaultOnly (.mk (some value) body place :: others) location = [] := by
  cases others <;> rfl

/-! ## Switches among tokens -/

/-- The places are of switches with a default alone, each derived from tokens side by side, and
each ending behind the end of the one before it. -/
inductive Warned (dialect : Dialect) : List Token → List Location → Prop where
  | none (tokens : List Token) : Warned dialect tokens []
  | further {shorter before taken behind : List Token} {last : Token} {earlier : List Location}
      {statement : Statement} {place : Location}
      (warned : Warned dialect shorter earlier) (ends : before ++ taken = shorter ++ [last])
      (derived : DerivesStatement dialect taken statement) (only : statement.isDefaultOnly = true)
      (located : statement.location = some place) :
      Warned dialect (shorter ++ last :: behind) (earlier ++ [place])

section

variable {tokens others : List Token} {places found : List Location}

theorem Warned.widen (warned : Warned dialect tokens places) (others : List Token) :
    Warned dialect (tokens ++ others) places := by
  cases warned with
  | none => exact .none _
  | further warned ends derived only located =>
    rw [List.append_assoc]
    exact .further warned ends derived only located

theorem Warned.append (warned : Warned dialect tokens places) (further : Warned dialect others found) :
    Warned dialect (tokens ++ others) (places ++ found) := by
  induction further with
  | none others =>
    rw [List.append_nil]
    exact warned.widen others
  | @further shorter before taken behind last earlier statement place _ ends derived only located ih =>
    rw [← List.append_assoc, ← List.append_assoc]
    refine @Warned.further dialect (tokens ++ shorter) (tokens ++ before) taken behind last _ statement place ih ?_
      derived only located
    rw [List.append_assoc, ends, List.append_assoc]

theorem Warned.behind (warned : Warned dialect tokens places) (front : List Token) :
    Warned dialect (front ++ tokens) places := (Warned.none front).append warned

/-- A switch that is warned of when its last token has been taken. -/
theorem Warned.closed {last : Token} {statement : Statement} {place : Location} (warned : Warned dialect tokens places)
    (derived : DerivesStatement dialect (tokens ++ [last]) statement) (only : statement.isDefaultOnly = true)
    (located : statement.location = some place) : Warned dialect (tokens ++ [last]) (places ++ [place]) :=
  @Warned.further dialect tokens [] (tokens ++ [last]) [] last places statement place warned rfl derived only located

theorem Warned.standsIn (warned : Warned dialect tokens places) :
    ∀ place ∈ places, ∃ statement, StandsIn dialect tokens statement ∧ statement.isDefaultOnly = true
      ∧ statement.location = some place := by
  induction warned with
  | none => exact fun _ member => nomatch member
  | @further shorter before taken behind last earlier statement place _ ends derived only located ih =>
    intro other member
    obtain member | here := List.mem_append.mp member
    · obtain ⟨inner, standing, default, at'⟩ := ih other member
      exact ⟨inner, standing.widen (List.prefix_append _ _).isInfix, default, at'⟩
    · obtain rfl := List.mem_singleton.mp here
      refine ⟨statement, derived.standsIn.widen ⟨before, behind, ?_⟩, only, located⟩
      rw [ends, List.append_assoc]
      rfl

theorem Warned.ranges (warned : Warned dialect tokens places) (inTurn : tokens.Pairwise Token.EndsBefore) :
    ∃ ranges : List (Nat × Nat), places = ranges.map (fun range => dialect.location range.1 range.2)
      ∧ ranges.Pairwise (fun first second => first.2 < second.2)
      ∧ ∀ range ∈ ranges, ∃ token ∈ tokens, token.stop = range.2 := by
  induction warned with
  | none => exact ⟨[], rfl, .nil, fun _ member => nomatch member⟩
  | @further shorter before taken behind last earlier statement place _ ends derived only located ih =>
    obtain ⟨first, rest, rfl, written⟩ := derived.location
    obtain ⟨shortInTurn, -, apart⟩ := List.pairwise_append.mp inTurn
    obtain ⟨ranges, rfl, ordered, stops⟩ := ih shortInTurn
    have stop : stopAfter first.stop rest = last.stop := by
      have whole := congrArg (stopAfter 0) ends
      rwa [stopAfter_append, stopAfter_append, stopAfter_cons] at whole
    obtain rfl : span dialect first rest = place := Option.some.inj (written.symm.trans located)
    refine ⟨ranges ++ [(first.start, last.stop)], ?_, ?_, ?_⟩
    · rw [List.map_append, List.map_singleton, span, stop]
    · refine List.pairwise_append.mpr ⟨ordered, List.pairwise_singleton _ _, fun range member other here => ?_⟩
      obtain rfl := List.mem_singleton.mp here
      obtain ⟨token, inside, same⟩ := stops range member
      have before := apart token inside last List.mem_cons_self
      exact same ▸ before
    · intro range member
      obtain member | here := List.mem_append.mp member
      · obtain ⟨token, inside, same⟩ := stops range member
        exact ⟨token, List.mem_append_left _ inside, same⟩
      · obtain rfl := List.mem_singleton.mp here
        exact ⟨last, List.mem_append_right _ List.mem_cons_self, rfl⟩

end

mutual

/-- The warnings of a block are of switches in front of its closing brace. -/
theorem Grammar.DerivesBlock.warned {tokens : List Token} {block : Block}
    (derived : DerivesBlock dialect tokens block) :
    ∃ inner closing, tokens = inner ++ [closing] ∧ Warned dialect inner block.defaultOnlySwitches := by
  cases derived with
  | @braces opening closing inner statements openMark list closeMark =>
    exact ⟨opening :: inner, closing, rfl, (DerivesStatements.warned list).behind [opening]⟩

theorem Grammar.DerivesStatements.warned {tokens : List Token} {statements : List Statement}
    (derived : DerivesStatements dialect tokens statements) :
    Warned dialect tokens (statementsDefaultOnlySwitches statements) := by
  cases derived with
  | none => exact .none []
  | some head tail => exact (DerivesStatement.warned head).append (DerivesStatements.warned tail)

theorem Grammar.DerivesStatement.warned {tokens : List Token} {statement : Statement}
    (derived : DerivesStatement dialect tokens statement) :
    Warned dialect tokens statement.defaultOnlySwitches := by
  cases derived with
  | block derived =>
    obtain ⟨inner, closing, rfl, warned⟩ := DerivesBlock.warned derived
    exact warned.widen [closing]
  | @functionDefinition word ident opening closing _ inner returned tokens _ _ _ _ _ _ _ _ _ derived =>
    obtain ⟨body, last, rfl, warned⟩ := DerivesBlock.warned derived
    have front := (warned.widen [last]).behind (word :: ident :: opening :: (inner ++ closing :: returned))
    rwa [List.cons_append, List.cons_append, List.cons_append, List.append_assoc, List.cons_append] at front
  | @«switch» word tokens inner value cases keyword tested list some =>
    rw [Statement.defaultOnlySwitches]
    match list with
    | @DerivesCases.default _ mark _ body default derived =>
      have whole := DerivesStatement.switch keyword tested (.default default derived) some
      obtain ⟨inner, last, rfl, warned⟩ := DerivesBlock.warned derived
      have front := warned.behind (word :: (tokens ++ [mark]))
      have ends : word :: (tokens ++ mark :: (inner ++ [last])) = word :: (tokens ++ [mark]) ++ inner ++ [last] := by
        simp
      rw [ends] at whole ⊢
      rw [casesDefaultOnlySwitches, casesDefaultOnlySwitches, List.append_nil]
      exact front.closed whole rfl rfl
    | @DerivesCases.case _ _ _ _ _ _ _ others case literal derived tail =>
      rw [defaultOnly_valued, List.append_nil]
      exact (DerivesCases.warned (.case case literal derived tail)).behind (word :: tokens)
  | @ifThen word tokens inner _ _ _ _ derived =>
    obtain ⟨body, last, rfl, warned⟩ := DerivesBlock.warned derived
    exact (warned.widen [last]).behind (word :: tokens)
  | @forLoop word before tokens behind inner _ _ _ _ _ prepared _ advanced derived =>
    obtain ⟨_, first, rfl, inPre⟩ := DerivesBlock.warned prepared
    obtain ⟨_, second, rfl, inPost⟩ := DerivesBlock.warned advanced
    obtain ⟨_, third, rfl, inBody⟩ := DerivesBlock.warned derived
    have further := ((inPost.widen [second]).append (inBody.widen [third])).behind tokens
    exact ((inPre.widen [first]).append further).behind [word]
  | declaration | initialisation | assignment | call | breakLoop | continueLoop => exact .none _

theorem Grammar.DerivesCases.warned {tokens : List Token} {cases : List Case}
    (derived : DerivesCases dialect tokens cases) :
    Warned dialect tokens (casesDefaultOnlySwitches cases) := by
  cases derived with
  | none => exact .none []
  | @default word tokens body keyword derived =>
    obtain ⟨_, _, rfl, warned⟩ := DerivesBlock.warned derived
    rw [casesDefaultOnlySwitches, casesDefaultOnlySwitches, List.append_nil]
    exact (warned.widen _).behind [word]
  | @case word tokens inner rest value body others keyword tested derived tail =>
    obtain ⟨_, _, rfl, warned⟩ := DerivesBlock.warned derived
    exact ((warned.widen _).append (DerivesCases.warned tail)).behind (word :: tokens)

end

end Ir

end ContractAsm

import ContractAsm.Lowering.Dispatch
import Mathlib

/-!
# The snippets of the dispatcher read cleanly

Each of the two snippets is one function definition, and reading it finds no fault and
warns of nothing. So the helpers are always added, whatever block they are added to.
-/

namespace ContractAsm.Lowering

open Ir (Statement Block)

/-! ## What the snippets are -/

def number (value : Text) (location : Option Location) : Ir.Expression :=
  .literal ⟨.number, value, some Ir.wordType, location⟩

/-- The body of the value check: nothing is done if no value was sent, and otherwise the
call is given up. -/
inductive IsNoValueBody : Block → Prop where
  | mk {asked tested first second given block default whole all empty case : Option Location} :
      IsNoValueBody (.mk [
        .switch (.functionCall "callvalue" [] asked) [
          .mk (some (number "0" tested)) (.mk [] empty) case,
          .mk none (.mk [.expression (.functionCall "revert" [number "0" first, number "0" second] given)]
            block) default]
          whole] all)

/-- The body of the selector reader: the first word of the call data, shifted down by 224
bits, becomes its result. -/
inductive IsSelectorBody : Block → Prop where
  | mk {offset loaded base exponent raised divided whole all : Option Location} :
      IsSelectorBody (.mk [
        .assignment ["sig"] (.functionCall "div" [
          .functionCall "calldataload" [number "0" offset] loaded,
          .functionCall "exp" [number "2" base, number "224" exponent] raised] divided)
          whole] all)

theorem noValueSnippet_statements : ∃ body location, IsNoValueBody body ∧
    noValueSnippet.statements = .ok [.functionDefinition noValueCheck [] [] body location] := by
  conv in noValueSnippet.statements => cbv
  exact ⟨_, _, .mk, rfl⟩

theorem selectorSnippet_statements : ∃ body location, IsSelectorBody body ∧
    selectorSnippet.statements
      = .ok [.functionDefinition selectorReader [] [⟨"sig", some Ir.wordType⟩] body location] := by
  conv in selectorSnippet.statements => cbv
  exact ⟨_, _, .mk, rfl⟩

/-! ## Adding them -/

/-- The definitions of the two helpers, in the order in which they are added. -/
structure Helpers where
  noValueBody : Block
  selectorBody : Block
  noValueLocation : Option Location
  selectorLocation : Option Location
  noValue : IsNoValueBody noValueBody
  selector : IsSelectorBody selectorBody

def Helpers.statements (helpers : Helpers) : List Statement :=
  [.functionDefinition noValueCheck [] [] helpers.noValueBody helpers.noValueLocation,
    .functionDefinition selectorReader [] [⟨"sig", some Ir.wordType⟩] helpers.selectorBody
      helpers.selectorLocation]

theorem collect_cons {snippet : Snippet} {rest : List Snippet} {statements more : List Statement}
    {failure : Option Failure} (read : snippet.statements = .ok statements)
    (others : Snippet.collect rest = (more, failure)) :
    Snippet.collect (snippet :: rest) = (statements ++ more, failure) := by
  rw [Snippet.collect, read]
  simp only [others]

theorem collect_dispatcherSnippets :
    ∃ helpers : Helpers, Snippet.collect dispatcherSnippets = (helpers.statements, none) := by
  obtain ⟨noValueBody, noValueLocation, noValue, first⟩ := noValueSnippet_statements
  obtain ⟨selectorBody, selectorLocation, selector, second⟩ := selectorSnippet_statements
  refine ⟨⟨noValueBody, selectorBody, noValueLocation, selectorLocation, noValue, selector⟩, ?_⟩
  exact collect_cons first (collect_cons second rfl)

theorem appendDispatcher_ok (contract : Source.Contract) (body : Block) :
    ∃ helpers : Helpers, appendDispatcher contract body
      = .ok ((body.append helpers.statements).append [dispatcherSwitch contract]) := by
  obtain ⟨helpers, collected⟩ := collect_dispatcherSnippets
  have added : Snippet.appendTo body dispatcherSnippets = (body.append helpers.statements, none) := by
    unfold Snippet.appendTo
    rw [collected]
  refine ⟨helpers, ?_⟩
  unfold appendDispatcher
  rw [added]

end ContractAsm.Lowering

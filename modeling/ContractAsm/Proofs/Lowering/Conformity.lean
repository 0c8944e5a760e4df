import ContractAsm.Proofs.Lowering.Outcome
import ContractAsm.Proofs.Source.Conformity
import ContractAsm.Proofs.Syntax.Conformity

/-!
# Lowered blocks conform

Whatever lowering makes itself has no location, and its literals have a type; what it hands on
conforms as the source unit was accepted; and the helpers conform since they are read from
short texts. So every block that comes out conforms to its schema, as every block does that is
read from a text.
-/

namespace ContractAsm.Lowering

open Schema (Placed largestOffset)
open Source (Function Contract)
open Ir (Statement Expression Block)

/-! ## Functions -/

theorem conforms_wordLiteral (value : Text) : (Expression.literal (Ir.wordLiteral value)).Conforms :=
  Expression.conforms_literal (Literal.conforms Placed.none)

theorem conforms_revert {location : Option Location} (placed : Placed location) :
    (Ir.revert location).Conforms := by
  refine Expression.conforms_functionCall placed "revert" ?_
  simp only [List.forall_mem_cons]
  exact ⟨conforms_wordLiteral "0", conforms_wordLiteral "0", List.forall_mem_nil _⟩

theorem conforms_leafStatement {leaf : Source.Statement} {statement : Statement}
    (conforms : Source.LeafConforms leaf) (lowered : leafStatement? leaf = some statement) :
    statement.Conforms := by
  cases leaf with
  | throw location =>
    cases lowered
    exact Statement.conforms_expression (conforms_revert conforms)
  | inlineAssembly operations location =>
    cases lowered
    exact Statement.conforms_inlineAssembly conforms.2 conforms.1
  | block | other | unrecognised => contradiction

theorem conforms_definitionOf {function : Function} (conforms : function.Conforms) :
    (definitionOf function).Conforms := by
  have each : ∀ statement ∈ function.leaves.filterMap leafStatement?, statement.Conforms := by
    intro statement member
    obtain ⟨leaf, inside, lowered⟩ := List.mem_filterMap.mp member
    exact conforms_leafStatement (conforms.2 leaf inside) lowered
  exact Statement.conforms_functionDefinition conforms.1 _ nofun nofun (Block.conforms Placed.none each)

/-! ## The dispatcher -/

theorem conforms_call (name : Text) : (Statement.expression (Ir.call name [] none)).Conforms :=
  Statement.conforms_expression
    (Expression.conforms_functionCall Placed.none name (List.forall_mem_nil _))

theorem conforms_callBody (function : Function) (target : Text) : (callBody function target).Conforms := by
  refine Block.conforms Placed.none (List.forall_mem_append.mpr ⟨?_, ?_⟩)
  · split
    · exact List.forall_mem_nil _
    · exact List.forall_mem_singleton.mpr (conforms_call noValueCheck)
  · exact List.forall_mem_singleton.mpr (conforms_call target)

theorem conforms_otherwiseCase (contract : Contract) : (otherwiseCase contract).Conforms := by
  refine Ir.Case.conforms_default Placed.none ?_
  split
  · exact conforms_callBody _ fallbackName
  · refine Block.conforms Placed.none (List.forall_mem_singleton.mpr ?_)
    exact Statement.conforms_expression (conforms_revert Placed.none)

theorem conforms_dispatcherSwitch (contract : Contract) : (dispatcherSwitch contract).Conforms := by
  have asked : (Ir.call selectorReader [] none).Conforms :=
    Expression.conforms_functionCall Placed.none selectorReader (List.forall_mem_nil _)
  refine Statement.conforms_switch Placed.none asked (List.forall_mem_append.mpr ⟨?_, ?_⟩)
  · intro case member
    obtain ⟨function, -, rfl⟩ := List.mem_map.mp member
    exact Ir.Case.conforms_value Placed.none (Literal.conforms Placed.none) (conforms_callBody function _)
  · exact List.forall_mem_singleton.mpr (conforms_otherwiseCase contract)

/-! ## The helpers -/

theorem conforms_snippet {snippet : Snippet} (short : (snippet.source.length : Int) ≤ largestOffset)
    {statements : List Statement} (read : snippet.statements = .ok statements) :
    ∀ statement ∈ statements, statement.Conforms := by
  unfold Snippet.statements at read
  cases parsed : (Ir.parse snippet.source Snippet.dialect).block with
  | none =>
    simp only [parsed] at read
    contradiction
  | some block =>
    simp only [parsed] at read
    split at read
    · rename_i same _
      cases same
      cases read
      exact Ir.statements_conform_of_parse short parsed
    · contradiction

/-- What is collected from short snippets conforms, also if one of them fails. -/
theorem conforms_collect {snippets : List Snippet}
    (short : ∀ snippet ∈ snippets, (snippet.source.length : Int) ≤ largestOffset) :
    ∀ statement ∈ (Snippet.collect snippets).1, statement.Conforms := by
  induction snippets with
  | nil => exact List.forall_mem_nil _
  | cons snippet rest ih =>
    rw [List.forall_mem_cons] at short
    rw [Snippet.collect]
    cases read : snippet.statements with
    | error => exact List.forall_mem_nil _
    | ok statements => exact List.forall_mem_append.mpr ⟨conforms_snippet short.1 read, ih short.2⟩

theorem dispatcherSnippets_short :
    ∀ snippet ∈ dispatcherSnippets, (snippet.source.length : Int) ≤ largestOffset := by
  decide +kernel

theorem appendDispatcher_conforming (contract : Contract) (body : Block) :
    ∃ helpers : List Statement, (∀ helper ∈ helpers, helper.Conforms)
      ∧ appendDispatcher contract body = .ok ((body.append helpers).append [dispatcherSwitch contract]) := by
  obtain ⟨helpers, collected⟩ := collect_dispatcherSnippets
  have conform := conforms_collect dispatcherSnippets_short
  rw [collected] at conform
  have added : Snippet.appendTo body dispatcherSnippets = (body.append helpers.statements, none) := by
    unfold Snippet.appendTo
    rw [collected]
  refine ⟨helpers.statements, conform, ?_⟩
  unfold appendDispatcher
  rw [added]

/-! ## Contracts -/

theorem appended_of_lowerContract {registry after : Registry} {contract : Contract}
    {lowered : LoweredContract} (done : (lowerContract registry contract).result = .ok (lowered, after)) :
    appendDispatcher contract (.mk (contract.functions.map definitionOf) (some contract.location))
      = .ok lowered.block := by
  -- Here too the dispatcher is only a name.
  obtain ⟨dispatch, named⟩ : ∃ dispatch, dispatch = appendDispatcher contract := ⟨_, rfl⟩
  rw [← named]
  rw [lowerContract, ← named, Traced.result_bind] at done
  obtain ⟨_, -, done⟩ := ok_of_bind done
  by_cases taken : registry.has contract.qualifiedName = true
  · simp only [if_pos taken, Traced.result_bind, Traced.result_ofExcept] at done
    contradiction
  · simp only [if_neg taken, Traced.result_bind, Traced.result_ofExcept] at done
    obtain ⟨_, -, done⟩ := ok_of_bind done
    obtain ⟨definitions, made, done⟩ := ok_of_bind done
    obtain ⟨block, built, done⟩ := ok_of_bind done
    obtain ⟨_, -, done⟩ := ok_of_bind done
    cases done
    rwa [((reports_functions contract.functions).held made).2] at built

theorem conforms_lowerContract {registry after : Registry} {contract : Contract} {lowered : LoweredContract}
    (conforms : contract.Conforms)
    (done : (lowerContract registry contract).result = .ok (lowered, after)) : lowered.block.Conforms := by
  obtain ⟨helpers, conform, added⟩ := appendDispatcher_conforming contract
    (.mk (contract.functions.map definitionOf) (some contract.location))
  rw [← Except.ok.inj (added.symm.trans (appended_of_lowerContract done))]
  refine Block.conforms conforms.1 (List.forall_mem_append.mpr ⟨List.forall_mem_append.mpr ⟨?_, conform⟩, ?_⟩)
  · intro definition member
    obtain ⟨function, declared, rfl⟩ := List.mem_map.mp member
    exact conforms_definitionOf (conforms.2 function declared)
  · exact List.forall_mem_singleton.mpr (conforms_dispatcherSwitch contract)

theorem conforms_lowerContracts {registry : Registry} {contracts : List Contract}
    {results : List LoweredContract} (conform : ∀ contract ∈ contracts, contract.Conforms)
    (done : (lowerContracts registry contracts).result = .ok results) :
    ∀ lowered ∈ results, lowered.block.Conforms := by
  induction contracts generalizing registry results with
  | nil =>
    cases done
    exact List.forall_mem_nil _
  | cons contract rest ih =>
    rw [List.forall_mem_cons] at conform
    rw [result_lowerContracts_cons] at done
    obtain ⟨value, first, done⟩ := ok_of_bind done
    obtain ⟨more, others, rfl⟩ := ok_of_map done
    exact List.forall_mem_cons.mpr ⟨conforms_lowerContract conform.1 first, ih conform.2 others⟩

/-! ## Both producers -/

/-- A conforming block comes out of validation as it is. -/
theorem irBlock_of_conforms {block : Block} (conforms : block.Conforms) :
    Validation.irBlock block.toJson = .valid (some block.toJson) := by
  have whole : Schema.KeepsWhole (.node .irBlock) (some block.toJson) := conforms
  cases whole with
  | node keeps =>
    have runs := keeps.runs (Schema.names_node .irBlock)
    exact Validation.checkAgainst_of_keeps runs keeps (Schema.orderly_schema .irBlock)

/-- Every block that is read from a text, in either dialect, and every block that an accepted
source unit is lowered to is valid, and validating it drops nothing. No text has more units
than the largest offset, which is 2^53 - 1. -/
theorem producers_conform :
    (∀ (source : Text) (dialect : Ir.Dialect) (tree : Block), (source.length : Int) ≤ largestOffset →
        (Ir.parse source dialect).block = some tree →
        Validation.irBlock tree.toJson = .valid (some tree.toJson))
      ∧ ∀ (document : Json) (source : Validation.ValidSourceUnit) (registry : Registry)
          (contracts : List LoweredContract), Validation.sourceUnit document = .valid (some source) →
        (lowerUnit registry source.tree).result = .ok contracts →
        ∀ contract ∈ contracts,
          Validation.irBlock contract.block.toJson = .valid (some contract.block.toJson) := by
  constructor
  · intro source dialect tree short read
    exact irBlock_of_conforms (Ir.conforms_of_parse short read)
  · intro document source registry contracts accepted done contract member
    have conform := conforms_lowerContracts (Source.conforms_of_sourceUnit accepted) done
    exact irBlock_of_conforms (conform contract member)

def carriedPlace : Location := ⟨.ofNat 0, .ofNat 9, none⟩

def carryingContract : Contract :=
  let body : Source.Block :=
    ⟨[.inlineAssembly (.mk [] none) carriedPlace, .throw carriedPlace], carriedPlace⟩
  ⟨"C", "a:C", .contract, [], [], [], [], [],
    [⟨"f", .ordinary, .anyone, .payable, true, [], [], [], some body, carriedPlace⟩], carriedPlace⟩

def carryingDocument : Json :=
  let place := carriedPlace.toJson
  let assembly : Json := .object [("kind", .string "inlineAssembly"),
    ("operations", Asm.Block.toJson (.mk [] none)), ("location", place)]
  let throw : Json := .object [("kind", .string "throw"), ("location", place)]
  let body : Json := .object [("kind", .string "block"), ("statements", .array [assembly, throw]),
    ("location", place)]
  let function : Json := .object [("kind", .string "function"), ("name", .string "f"),
    ("functionKind", .string "function"), ("visibility", .string "public"),
    ("stateMutability", .string "payable"), ("implemented", .bool true), ("modifiers", .array []),
    ("parameters", .array []), ("returnParameters", .array []), ("body", body), ("location", place)]
  let contract : Json := .object [("kind", .string "contract"), ("name", .string "C"),
    ("fullyQualifiedName", .string "a:C"), ("contractKind", .string "contract"),
    ("baseContracts", .array []), ("structs", .array []), ("enums", .array []), ("events", .array []),
    ("modifiers", .array []), ("functions", .array [function]), ("location", place)]
  .object [("kind", .string "sourceUnit"), ("path", .string "a"), ("contracts", .array [contract])]

def switchingText : Text := "\x7b let x := f(1) switch x case 0 \x7b \x7d default \x7b \x7d \x7d"

theorem sourceUnit_carrying :
    Validation.sourceUnit carryingDocument
      = .valid (some ⟨carryingDocument, ⟨"a", [carryingContract]⟩⟩) := by
  cbv

theorem producers_conform_carrying :
    (∃ tree, (Ir.parse switchingText ⟨false, "t"⟩).block = some tree
        ∧ Validation.irBlock tree.toJson = .valid (some tree.toJson))
      ∧ ∃ lowered, (lowerUnit .empty ⟨"a", [carryingContract]⟩).result = .ok [lowered]
        ∧ Validation.irBlock lowered.block.toJson = .valid (some lowered.block.toJson) := by
  obtain ⟨reading, lowering⟩ := producers_conform
  constructor
  · have some : (Ir.parse switchingText ⟨false, "t"⟩).block.isSome = true := by decide +kernel
    obtain ⟨tree, read⟩ := Option.isSome_iff_exists.mp some
    have short : (switchingText.length : Int) ≤ largestOffset := by decide +kernel
    exact ⟨tree, read, reading _ _ tree short read⟩
  · have clean : violations .empty carryingContract = [] := rfl
    obtain ⟨⟨lowered, after⟩, done⟩ := (reports_contract .empty carryingContract).ok_iff.mpr clean
    have only : (lowerUnit .empty ⟨"a", [carryingContract]⟩).result = .ok [lowered] := by
      rw [lowerUnit, result_lowerContracts_cons, done]
      rfl
    exact ⟨lowered, only, lowering _ _ _ _ sourceUnit_carrying only lowered List.mem_cons_self⟩

end ContractAsm.Lowering

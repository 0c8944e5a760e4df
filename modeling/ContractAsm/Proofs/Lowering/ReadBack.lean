import ContractAsm.Lowering.Listing
import ContractAsm.Proofs.Asm.Inlining
import ContractAsm.Proofs.Dispatch.Names
import ContractAsm.Proofs.Lowering.Violations
import ContractAsm.Proofs.Printing.RoundTrip
import ContractAsm.Proofs.Syntax.Readability

/-!
# Lowered contracts are read back

The text of a lowered contract is read as the block itself, in the typed dialect, if the
parts that come from the source can stand in it: the qualified name in the comment above the
block, the names of the functions inside the names in the IR, and the inline assembly in the
bodies. Everything that lowering adds can be read anyway.
-/

namespace ContractAsm.Lowering

open CodeUnit (newline slash)
open Ir (Dialect Block Statement StatementsReadable CasesReadable)
open Source (Function Contract)

variable {dialect : Dialect}

/-! ## What lowering adds -/

theorem callBody_readable (function : Function) {name : Text} (named : IsName name) :
    (callBody function name).inlined.Readable dialect := by
  have check : IsName noValueCheck := by decide
  unfold callBody
  by_cases payable : function.isPayable = true
  · rw [if_pos payable]
    exact ⟨rfl, ⟨named, trivial⟩, trivial⟩
  · rw [if_neg payable]
    exact ⟨rfl, ⟨check, trivial⟩, ⟨named, trivial⟩, trivial⟩

section

variable (typed : dialect.typed = true)
include typed

theorem number_readable {value : Text} (spelled : Token.Spells (.number value) value.units)
    (location : Option Location) : (number value location).Readable dialect := by
  have types : dialect.Types (some Ir.wordType) := by
    rw [Dialect.Types, if_pos typed]
    decide
  exact ⟨spelled, types⟩

theorem decimal_readable {value : Text} (some : value.units ≠ [])
    (decimal : value.units.all CodeUnit.isDigit = true) (location : Option Location) :
    (number value location).Readable dialect :=
  number_readable typed (.decimal some (List.all_eq_true.mp decimal)) location

theorem zero_readable (location : Option Location) : (number "0" location).Readable dialect :=
  decimal_readable typed (by decide) (by decide) location

theorem revert_readable (location : Option Location) :
    (Statement.expression (Ir.revert location)).Readable dialect := by
  have zero := zero_readable typed none
  exact ⟨by decide, zero, zero, trivial⟩

theorem IsNoValueBody.readable {body : Block} (h : IsNoValueBody body) :
    body.inlined.Readable dialect := by
  cases h with
  | mk =>
    have asked : IsName "callvalue" := by decide
    have given : IsName "revert" := by decide
    have zero := zero_readable typed
    exact ⟨rfl, ⟨⟨asked, trivial⟩, List.cons_ne_nil _ _, zero _, ⟨rfl, trivial⟩,
      ⟨rfl, ⟨given, zero _, zero _, trivial⟩, trivial⟩, rfl⟩, trivial⟩

theorem IsSelectorBody.readable {body : Block} (h : IsSelectorBody body) :
    body.inlined.Readable dialect := by
  cases h with
  | mk =>
    have target : ∀ name ∈ [("sig" : Text)], IsName name := by decide
    have divided : IsName "div" := by decide
    have loaded : IsName "calldataload" := by decide
    have raised : IsName "exp" := by decide
    have base (location : Option Location) : (number "2" location).Readable dialect :=
      decimal_readable typed (by decide) (by decide) location
    have exponent (location : Option Location) : (number "224" location).Readable dialect :=
      decimal_readable typed (by decide) (by decide) location
    exact ⟨rfl, ⟨List.cons_ne_nil _ _, target, divided, ⟨loaded, zero_readable typed _, trivial⟩,
      ⟨raised, base _, exponent _, trivial⟩, trivial⟩, trivial⟩

theorem Helpers.readable (helpers : Helpers) :
    ∀ statement ∈ helpers.statements, statement.inlined.Readable dialect := by
  have result : Ir.NamesReadable dialect [⟨"sig", some Ir.wordType⟩] := by
    have types : dialect.Types (some Ir.wordType) := (zero_readable typed none).2
    exact List.forall_mem_singleton.mpr ⟨by decide, types⟩
  have check : IsName noValueCheck := by decide
  have reader : IsName selectorReader := by decide
  intro statement member
  simp only [Helpers.statements, List.mem_cons, List.not_mem_nil, or_false] at member
  rcases member with rfl | rfl
  · exact ⟨check, Ir.namesReadable_nil, Ir.namesReadable_nil, helpers.noValue.readable typed⟩
  · exact ⟨reader, Ir.namesReadable_nil, result, helpers.selector.readable typed⟩

/-! ## The dispatcher -/

theorem otherwiseCase_readable (contract : Contract) :
    CasesReadable dialect [(otherwiseCase contract).inlined] := by
  unfold otherwiseCase
  cases contract.fallback? with
  | some fallback => exact ⟨callBody_readable fallback (by decide), rfl⟩
  | none => exact ⟨⟨rfl, revert_readable typed none, trivial⟩, rfl⟩

theorem callCases_readable {functions : List Function} {others : List Ir.Case}
    (named : ∀ function ∈ functions, IsName function.uniqueName)
    (rest : CasesReadable dialect (Ir.casesInlined others)) :
    CasesReadable dialect (Ir.casesInlined (functions.map callCase ++ others)) := by
  induction functions with
  | nil => exact rest
  | cons function more ih =>
    obtain ⟨here, there⟩ := List.forall_mem_cons.mp named
    have selector := number_readable typed (spells_selectorOf function.signature) none
    exact ⟨selector, callBody_readable function here, ih there⟩

theorem dispatcherSwitch_readable {contract : Contract}
    (named : ∀ function ∈ contract.functions, IsName function.uniqueName) :
    (dispatcherSwitch contract).inlined.Readable dialect := by
  have reader : IsName selectorReader := by decide
  have cases : CasesReadable dialect (Ir.casesInlined (dispatchCases contract)) := by
    apply callCases_readable typed
    · intro function member
      exact named function (List.mem_filter.mp member).1
    · exact otherwiseCase_readable typed contract
  refine ⟨⟨reader, trivial⟩, ?_, cases⟩
  unfold dispatchCases
  cases (contract.functions.filter Function.isExternallyCallable).map callCase with
  | nil => exact List.cons_ne_nil _ _
  | cons => exact List.cons_ne_nil _ _

/-! ## Functions -/

theorem leaf_readable {leaf : Source.Statement} {statement : Statement}
    (written : ∀ operations location, leaf = .inlineAssembly operations location →
      operations.Readable dialect)
    (becomes : leafStatement? leaf = some statement) : statement.inlined.Readable dialect := by
  cases leaf with
  | throw location =>
    cases becomes
    exact revert_readable typed (some location)
  | inlineAssembly operations location =>
    cases becomes
    exact (written operations location rfl).toIr
  | block | other | unrecognised => contradiction

end

theorem statementsReadable_inlined {statements : List Statement}
    (each : ∀ statement ∈ statements, statement.inlined.Readable dialect) :
    StatementsReadable dialect (Ir.statementsInlined statements) := by
  induction statements with
  | nil => trivial
  | cons statement rest ih =>
    obtain ⟨here, there⟩ := List.forall_mem_cons.mp each
    exact ⟨here, ih there⟩

/-- The assembly in the bodies of the functions is written as the dialect demands. -/
def AssemblyReadable (dialect : Dialect) (contract : Contract) : Prop :=
  ∀ function ∈ contract.functions, ∀ operations location,
    .inlineAssembly operations location ∈ function.leaves → operations.Readable dialect

theorem definitionOf_readable (typed : dialect.typed = true) {function : Function}
    (named : IsName function.uniqueName)
    (written : ∀ operations location, .inlineAssembly operations location ∈ function.leaves →
      operations.Readable dialect) : (definitionOf function).inlined.Readable dialect := by
  have inside : StatementsReadable dialect
      (Ir.statementsInlined (function.leaves.filterMap leafStatement?)) := by
    apply statementsReadable_inlined
    intro statement member
    obtain ⟨leaf, stands, becomes⟩ := List.mem_filterMap.mp member
    apply leaf_readable typed _ becomes
    rintro operations location rfl
    exact written operations location stands
  exact ⟨named, Ir.namesReadable_nil, Ir.namesReadable_nil, rfl, inside⟩

theorem loweredWith_readable (typed : dialect.typed = true) (helpers : Helpers) {contract : Contract}
    (named : ∀ function ∈ contract.functions, IsName function.uniqueName)
    (written : AssemblyReadable dialect contract) :
    (loweredWith helpers contract).block.inlined.Readable dialect := by
  refine ⟨rfl, statementsReadable_inlined fun statement member => ?_⟩
  rcases List.mem_append.mp member with member | member
  · rcases List.mem_append.mp member with member | member
    · obtain ⟨function, declared, rfl⟩ := List.mem_map.mp member
      exact definitionOf_readable typed (named function declared) (written function declared)
    · exact helpers.readable typed statement member
  · rw [List.mem_singleton.mp member]
    exact dispatcherSwitch_readable typed named

/-! ## Listings -/

/-- A contract whose block is printed is listed under a comment line with its name. -/
theorem text?_single {contract : LoweredContract} {text : Text}
    (printed : contract.block.print? = some text) :
    Listing.text? [contract] = some ("// " ++ contract.name ++ "\n" ++ text) := by
  have listed : Listing.section? contract = some ("// " ++ contract.name ++ "\n" ++ text) := by
    rw [Listing.section?, printed]
    rfl
  rw [Listing.text?, List.mapM_cons, listed]
  exact congrArg some (Layout.join_singleton _ _)

theorem units_heading (name text : Text) :
    ("// " ++ name ++ "\n" ++ text).units
      = slash :: slash :: (CodeUnit.space :: name.units ++ [newline]) ++ text.units := by
  simp only [Text.units_append]
  rfl

/-- The heading is a comment, so a listed block is read as the block alone. -/
theorem parse_heading {name : Text} (line : newline ∉ name.units) {block : Block}
    (readable : block.Readable dialect) :
    ∃ found, Ir.parse ("// " ++ name ++ "\n" ++ block.render) dialect
        = ⟨some found, found.defaultOnlySwitches.map .onlyDefaultCase⟩
      ∧ found.withoutLocations = block.withoutLocations := by
  have reads := (Block.prints readable).reads 0 (fun open_ => nomatch open_) Token.reads_nil
  have inside : newline ∉ CodeUnit.space :: name.units := by
    rw [List.mem_cons, not_or]
    exact ⟨by decide, line⟩
  have headed := reads.line inside
  rw [List.append_nil, ← units_heading] at headed
  obtain ⟨tokens, scanned, spelled⟩ := headed.scan
  obtain ⟨found, derived, same⟩ := Block.derived readable spelled
  exact ⟨found, Ir.parse_derived scanned derived, same⟩

/-- The listing of a lowered contract is read, in the typed dialect, as the block of the
contract with its assembly taken into the IR. Nothing is found in it but switches that have
a default alone. -/
theorem parse_listing {registry after : Registry} {contract : Contract} {lowered : LoweredContract}
    {source : Text} (done : (lowerContract registry contract).result = .ok (lowered, after))
    (line : newline ∉ contract.qualifiedName.units)
    (named : ∀ function ∈ contract.functions, ∀ unit ∈ function.name.units, Token.continuesWord unit = true)
    (written : AssemblyReadable ⟨true, source⟩ contract) :
    ∃ text found, Listing.text? [lowered] = some text
      ∧ Ir.parse text ⟨true, source⟩ = ⟨some found, found.defaultOnlySwitches.map .onlyDefaultCase⟩
      ∧ found.withoutLocations = lowered.block.inlined.withoutLocations := by
  obtain ⟨-, helpers, whole⟩ := (reports_contract registry contract).held done
  obtain rfl : lowered = loweredWith helpers contract := congrArg Prod.fst whole
  have names (function : Function) (member : function ∈ contract.functions) : IsName function.uniqueName :=
    isName_uniqueName (named function member)
  have readable := loweredWith_readable rfl helpers names written
  have printed : (loweredWith helpers contract).block.print?
      = some (loweredWith helpers contract).block.inlined.render := by
    rw [← Block.print?_inlined, Block.print?, if_pos (Block.recognised readable)]
  obtain ⟨found, read, same⟩ := parse_heading line readable
  exact ⟨_, found, text?_single printed, read, same⟩

/-- `let x:u256 := add(1:u256, 2:u256)` with a functional instruction, and a switch that has a
default alone. -/
def assembledOperations : Asm.Block :=
  let literal (value : Text) : Asm.Expression := .literal ⟨.number, value, some "u256", none⟩
  .mk [
    .variableDeclaration [⟨"x", some "u256"⟩]
      (some (.functionalInstruction "add" [literal "1", literal "2"] none)) none,
    .switch (.identifier "x" none) [.mk none (.mk [] none)] none] none

def assembledContract : Contract :=
  let place : Location := .ofOffsets 0 9 "t"
  ⟨"T", "t: \"T\"", .contract, [], [], [], [], [],
    [⟨"f.1", .ordinary, .outside, .payable, true, [], [], [],
      some ⟨[.block [.inlineAssembly assembledOperations place] place, .throw place], place⟩, place⟩],
    place⟩

theorem assembledOperations_readable (source : Text) : assembledOperations.Readable ⟨true, source⟩ := by
  have typed : (⟨true, source⟩ : Dialect).typed = true := rfl
  have x : IsName "x" := by decide
  have add : IsName "add" := by decide
  have word : IsName "u256" := by decide
  have one : (number "1" none).Readable ⟨true, source⟩ := decimal_readable typed (by decide) (by decide) none
  have two : (number "2" none).Readable ⟨true, source⟩ := decimal_readable typed (by decide) (by decide) none
  have declared : Ir.NamesReadable ⟨true, source⟩ [⟨"x", some "u256"⟩] :=
    List.forall_mem_singleton.mpr ⟨x, word⟩
  exact ⟨⟨List.cons_ne_nil _ _, declared, add, one, two, trivial⟩,
    ⟨x, List.cons_ne_nil _ _, trivial, rfl⟩, trivial⟩

theorem parse_listing_assembled :
    AssemblyReadable ⟨true, "<input>"⟩ assembledContract
      ∧ ∃ lowered after text found, (lowerContract .empty assembledContract).result = .ok (lowered, after)
        ∧ Listing.text? [lowered] = some text
        ∧ Ir.parse text ⟨true, "<input>"⟩ = ⟨some found, found.defaultOnlySwitches.map .onlyDefaultCase⟩
        ∧ found.withoutLocations = lowered.block.inlined.withoutLocations := by
  have written : AssemblyReadable ⟨true, "<input>"⟩ assembledContract := by
    rintro function (_ | ⟨_, ⟨⟩⟩) operations location (_ | ⟨_, _ | ⟨_, ⟨⟩⟩⟩)
    exact assembledOperations_readable "<input>"
  have named : ∀ function ∈ assembledContract.functions, ∀ unit ∈ function.name.units,
      Token.continuesWord unit = true := by
    rintro function (_ | ⟨_, ⟨⟩⟩)
    exact List.all_eq_true.mp rfl
  have line : newline ∉ assembledContract.qualifiedName.units := by decide
  have reports := reports_contract .empty assembledContract
  obtain ⟨⟨lowered, after⟩, done⟩ := reports.ok_iff.mpr rfl
  obtain ⟨text, found, listing⟩ := parse_listing done line named written
  exact ⟨written, lowered, after, text, found, done, listing⟩

end ContractAsm.Lowering

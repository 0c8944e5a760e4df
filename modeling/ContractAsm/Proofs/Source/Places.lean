import ContractAsm.Source.Basic
import Mathlib.Data.List.Basic

/-!
# Places in a source unit

Contracts, functions, bodies and the statements in these, however deep, are found by indices. The
places of a body are listed depth first, each before those inside it, which is the order of their
indices.
-/

namespace ContractAsm.Source

/-! ## Statements -/

namespace Statement

def location? : Statement → Option Location
  | .block _ location | .throw location | .inlineAssembly _ location | .other _ location => some location
  | .unrecognised _ => none

/-- What is found in a statement on a way of indices into nested blocks. -/
def at? : Statement → List Nat → Option Statement
  | statement, [] => some statement
  | .block statements _, index :: way => statements[index]?.bind (·.at? way)
  | _, _ :: _ => none

def locationAt? (statement : Statement) (way : List Nat) : Option Location := (statement.at? way).bind location?

end Statement

/-- A way that starts with an index, and the location at its end. -/
def behind (index : Nat) (place : List Nat × Location) : List Nat × Location := (index :: place.1, place.2)

mutual

/-- The locations in a statement, depth first, with the ways to them. -/
def Statement.places : Statement → List (List Nat × Location)
  | .block statements location => ([], location) :: placesEach 0 statements
  | .throw location | .inlineAssembly _ location | .other _ location => [([], location)]
  | .unrecognised _ => []

def placesEach (index : Nat) : List Statement → List (List Nat × Location)
  | [] => []
  | statement :: rest => statement.places.map (behind index) ++ placesEach (index + 1) rest

end

/-- A body as the statement that it would be inside another one. -/
def Block.asStatement (block : Block) : Statement := .block block.statements block.location

theorem mem_map_behind {index : Nat} {places : List (List Nat × Location)} {way : List Nat}
    {location : Location} :
    (way, location) ∈ places.map (behind index) ↔ ∃ rest, way = index :: rest ∧ (rest, location) ∈ places := by
  constructor
  · intro member
    obtain ⟨⟨rest, _⟩, inside, same⟩ := List.mem_map.mp member
    cases same
    exact ⟨rest, rfl, inside⟩
  · rintro ⟨rest, rfl, inside⟩
    exact List.mem_map.mpr ⟨_, inside, rfl⟩

theorem Statement.locationAt?_nil (statement : Statement) : statement.locationAt? [] = statement.location? := by
  cases statement <;> rfl

theorem Statement.locationAt?_cons {statements : List Statement} {location : Location} {index : Nat}
    {way : List Nat} :
    (Statement.block statements location).locationAt? (index :: way)
      = statements[index]?.bind (·.locationAt? way) := by
  rw [Statement.locationAt?, Statement.at?, Option.bind_assoc]
  rfl

mutual

/-- The locations that are listed are those that are found. -/
theorem Statement.mem_places {statement : Statement} {way : List Nat} {location : Location} :
    (way, location) ∈ statement.places ↔ statement.locationAt? way = some location := by
  cases statement with
  | block statements own =>
    rw [Statement.places, List.mem_cons, mem_placesEach]
    cases way with
    | nil => simp [Statement.locationAt?, Statement.at?, Statement.location?, eq_comm]
    | cons index way => simp [Statement.locationAt?_cons]
  | throw own | inlineAssembly operations own | other kind own =>
    cases way with
    | nil => simp [Statement.places, Statement.locationAt?, Statement.at?, Statement.location?, eq_comm]
    | cons => simp [Statement.places, Statement.locationAt?, Statement.at?]
  | unrecognised node =>
    cases way with
    | nil => simp [Statement.places, Statement.locationAt?, Statement.at?, Statement.location?]
    | cons => simp [Statement.places, Statement.locationAt?, Statement.at?]

theorem mem_placesEach {index : Nat} {statements : List Statement} {way : List Nat} {location : Location} :
    (way, location) ∈ placesEach index statements ↔
      ∃ offset rest, way = (index + offset) :: rest
        ∧ statements[offset]?.bind (·.locationAt? rest) = some location := by
  cases statements with
  | nil => simp [placesEach]
  | cons statement others =>
    rw [placesEach, List.mem_append, mem_map_behind, mem_placesEach]
    constructor
    · rintro (⟨rest, rfl, inside⟩ | ⟨offset, rest, rfl, found⟩)
      · exact ⟨0, rest, rfl, Statement.mem_places.mp inside⟩
      · exact ⟨offset + 1, rest, by rw [Nat.add_right_comm, Nat.add_assoc], found⟩
    · rintro ⟨offset, rest, rfl, found⟩
      cases offset with
      | zero => exact .inl ⟨rest, rfl, Statement.mem_places.mpr found⟩
      | succ offset => exact .inr ⟨offset, rest, by rw [Nat.add_right_comm, Nat.add_assoc], found⟩

end

mutual

/-- Depth first, every way comes before the ways behind it in the order of their indices. -/
theorem Statement.places_ordered (statement : Statement) :
    statement.places.Pairwise fun first second => first.1 < second.1 := by
  cases statement with
  | block statements own =>
    rw [Statement.places]
    refine List.Pairwise.cons ?_ (placesEach_ordered 0 statements)
    rintro ⟨way, location⟩ member
    obtain ⟨offset, rest, rfl, -⟩ := mem_placesEach.mp member
    exact List.nil_lt_cons _ _
  | throw own | inlineAssembly operations own | other kind own => exact List.pairwise_singleton _ _
  | unrecognised node => exact .nil

theorem placesEach_ordered (index : Nat) (statements : List Statement) :
    (placesEach index statements).Pairwise fun first second => first.1 < second.1 := by
  cases statements with
  | nil => exact .nil
  | cons statement others =>
    rw [placesEach, List.pairwise_append]
    refine ⟨?_, placesEach_ordered (index + 1) others, ?_⟩
    · rw [List.pairwise_map]
      exact (Statement.places_ordered statement).imp fun before => List.cons_lt_cons_iff.mpr (.inr ⟨rfl, before⟩)
    · rintro ⟨way, location⟩ here ⟨other, there⟩ later
      obtain ⟨rest, rfl, -⟩ := mem_map_behind.mp here
      obtain ⟨offset, more, rfl, -⟩ := mem_placesEach.mp later
      exact List.cons_lt_cons_iff.mpr (.inl (by omega))

end

/-! ## Contracts and functions -/

def SourceUnit.functionAt? (source : SourceUnit) (contract index : Nat) : Option Function :=
  source.contracts[contract]?.bind (·.functions[index]?)

/-- Something with a location that is not inside inline assembly. -/
inductive Place where
  | contract (index : Nat)
  | function (contract index : Nat)
  /-- The body itself, or on a way of indices what stands in it. -/
  | body (contract function : Nat) (way : List Nat)
deriving DecidableEq, Repr

def SourceUnit.statementAt? (source : SourceUnit) (contract function : Nat) (way : List Nat) : Option Statement :=
  ((source.functionAt? contract function).bind (·.body)).bind (·.asStatement.at? way)

def SourceUnit.locationAt? (source : SourceUnit) : Place → Option Location
  | .contract index => source.contracts[index]?.map (·.location)
  | .function contract index => (source.functionAt? contract index).map (·.location)
  | .body contract function way => (source.statementAt? contract function way).bind (·.location?)

end ContractAsm.Source

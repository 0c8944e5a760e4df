import ContractAsm.Proofs.Source.Places
import ContractAsm.Proofs.Validation.Acceptance

/-!
# What the validator reports

A violation says where a source unit breaks a rule that its schema does not tell; whether it
occurs is told by looking up that place. The violations of a unit are listed contract by contract
and function by function, each one once, and the findings of the validator are those of the list.
-/

namespace ContractAsm.Validation

open Source (Statement Block Function Contract SourceUnit Place placesEach behind)

/-- The segments of the path to a place. -/
def pathTo : Place → List Text
  | .contract index => element "contracts" index
  | .function contract index => element "contracts" contract ++ element "functions" index
  | .body contract function way =>
      (element "contracts" contract ++ element "functions" function).concat "body"
        ++ way.flatMap (element "statements")

/-! ## Violations -/

/-- A broken rule, with the place where it is broken and the value that breaks it. -/
inductive Violation where
  /-- An earlier contract has the same qualified name. -/
  | repeatedName (contract : Nat) (name : Text)
  | inverted (place : Place) (location : Location)
  | namedFallback (contract function : Nat) (name : Text)
  /-- An earlier function of the contract is a fallback. -/
  | repeatedFallback (contract function : Nat)
  | unnamedFunction (contract function : Nat)

namespace Violation

/-- Whether the rule is broken at that place of the source unit. -/
def Occurs (source : SourceUnit) : Violation → Prop
  | repeatedName index name =>
      ∃ contract, source.contracts[index]? = some contract ∧ contract.qualifiedName = name
        ∧ ∃ earlier ∈ source.contracts.take index, earlier.qualifiedName = name
  | inverted place location => source.locationAt? place = some location ∧ location.isInverted = true
  | namedFallback contract index name =>
      ∃ function, source.functionAt? contract index = some function ∧ function.kind = .fallback
        ∧ function.name = name ∧ name.isEmpty = false
  | repeatedFallback index position =>
      ∃ contract function, source.contracts[index]? = some contract
        ∧ contract.functions[position]? = some function ∧ function.kind = .fallback
        ∧ ∃ earlier ∈ contract.functions.take position, earlier.kind = .fallback
  | unnamedFunction contract index =>
      ∃ function, source.functionAt? contract index = some function ∧ function.kind = .ordinary
        ∧ function.name.isEmpty = true

/-- The contract or function that is reported, or what has the reported location. -/
def place : Violation → Place
  | repeatedName contract _ => .contract contract
  | inverted place _ => place
  | namedFallback contract function _ | repeatedFallback contract function
  | unnamedFunction contract function => .function contract function

/-- The segments of the path that is reported. -/
def path : Violation → List Text
  | inverted place _ => (pathTo place).concat "location"
  | other => pathTo other.place

def finding : Violation → Finding
  | repeatedName index name =>
      found (pathTo (.contract index)) "Duplicate fully qualified name" (some (.string name))
  | inverted place location =>
      found ((pathTo place).concat "location") "Location start is after its end" (some location.toJson)
  | namedFallback contract index name =>
      found (pathTo (.function contract index)) "Fallback function must be unnamed" (some (.string name))
  | repeatedFallback contract index =>
      found (pathTo (.function contract index)) "Contract declares more than one fallback function" none
  | unnamedFunction contract index =>
      found (pathTo (.function contract index)) "Function must be named" none

/-! A contract comes before its functions and there its name before its location; a function has
its location first, then its name and then its body, depth first. -/

def rank : Violation → List Nat
  | repeatedName contract _ => [contract, 0]
  | inverted (.contract index) _ => [index, 1]
  | inverted (.function contract index) _ => [contract, 2, index, 0]
  | inverted (.body contract function way) _ => contract :: 2 :: function :: 4 :: way
  | namedFallback contract function _ => [contract, 2, function, 1]
  | repeatedFallback contract function => [contract, 2, function, 2]
  | unnamedFunction contract function => [contract, 2, function, 3]

/-- The first violation is reported before the second. -/
def Before (first second : Violation) : Prop := first.rank < second.rank

theorem path_finding (violation : Violation) : violation.finding.path = Finding.pathText violation.path := by
  cases violation <;> rfl

end Violation

/-! ## The violations of a source unit in a row -/

def invertedAt (place : Place) (location : Location) : List Violation :=
  if location.isInverted then [.inverted place location] else []

def namingViolations (contract index : Nat) (before : List Function) (function : Function) : List Violation :=
  match function.kind with
  | .fallback =>
      (if ¬ function.name.isEmpty then [.namedFallback contract index function.name] else [])
        ++ (if before.any Function.isFallback then [.repeatedFallback contract index] else [])
  | .ordinary => if function.name.isEmpty then [.unnamedFunction contract index] else []
  | .creation => []

def bodyViolations (contract index : Nat) : Option Block → List Violation
  | some body => body.asStatement.places.flatMap fun place => invertedAt (.body contract index place.1) place.2
  | none => []

/-- The violations in a function that stands behind others. -/
def functionViolations (contract index : Nat) (before : List Function) (function : Function) :
    List Violation :=
  invertedAt (.function contract index) function.location ++ namingViolations contract index before function
    ++ bodyViolations contract index function.body

/-- The violations in a contract that stands behind others. -/
def contractViolations (index : Nat) (before : List Contract) (contract : Contract) : List Violation :=
  (if before.any (·.qualifiedName == contract.qualifiedName) then
    [.repeatedName index contract.qualifiedName] else [])
  ++ invertedAt (.contract index) contract.location
  ++ contract.functions.zipIdx.flatMap fun indexed =>
      functionViolations index indexed.2 (contract.functions.take indexed.2) indexed.1

def violations (source : SourceUnit) : List Violation :=
  source.contracts.zipIdx.flatMap fun indexed =>
    contractViolations indexed.2 (source.contracts.take indexed.2) indexed.1

/-! ## They are what is found -/

theorem locationFindings_eq (place : Place) (location : Location) :
    locationFindings (pathTo place) location = (invertedAt place location).map Violation.finding := by
  unfold locationFindings invertedAt
  split <;> rfl

theorem namingFindings_eq (contract index : Nat) (before : List Function) (function : Function) :
    namingFindings (pathTo (.function contract index)) function (before.any Function.isFallback)
      = (namingViolations contract index before function).map Violation.finding := by
  cases kind : function.kind with
  | fallback =>
    simp only [namingFindings, namingViolations, kind, List.map_append, apply_ite (List.map Violation.finding)]
    rfl
  | ordinary =>
    simp only [namingFindings, namingViolations, kind, apply_ite (List.map Violation.finding)]
    rfl
  | creation =>
    simp only [namingFindings, namingViolations, kind]
    rfl

mutual

theorem statementFindings_eq (path : List Text) (statement : Statement) :
    statementFindings path statement = statement.places.flatMap fun place =>
      locationFindings (path ++ place.1.flatMap (element "statements")) place.2 := by
  cases statement with
  | block statements location =>
    rw [statementFindings, Statement.places, List.flatMap_cons, List.flatMap_nil, List.append_nil,
      statementsFindings_eq]
  | throw location | inlineAssembly operations location | other kind location =>
    simp [statementFindings, Statement.places]
  | unrecognised node => simp [statementFindings, Statement.places]

theorem statementsFindings_eq (path : List Text) (index : Nat) (statements : List Statement) :
    statementsFindings path index statements = (placesEach index statements).flatMap fun place =>
      locationFindings (path ++ place.1.flatMap (element "statements")) place.2 := by
  cases statements with
  | nil => simp [statementsFindings, placesEach]
  | cons statement rest =>
    rw [statementsFindings, placesEach, List.flatMap_append, List.flatMap_map, statementFindings_eq,
      statementsFindings_eq]
    simp only [behind, List.flatMap_cons, List.append_assoc]

end

theorem functionFindings_eq (contract index : Nat) (before : List Function) (function : Function) :
    functionFindings (pathTo (.function contract index)) function (before.any Function.isFallback)
      = (functionViolations contract index before function).map Violation.finding := by
  rw [functionFindings, functionViolations, List.map_append, List.map_append, locationFindings_eq,
    namingFindings_eq]
  congr 1
  cases function.body with
  | none => rfl
  | some body =>
    have inside := statementFindings_eq ((pathTo (.function contract index)).concat "body") body.asStatement
    rw [bodyViolations, List.map_flatMap]
    exact inside.trans (List.flatMap_congr fun place _ => locationFindings_eq (.body contract index place.1) place.2)

/-- The scan over the functions, begun behind some of them, finds what stands in the others. -/
theorem functionsFindings_eq (contract : Nat) (before rest : List Function) :
    functionsFindings (pathTo (.contract contract)) before.length (before.any Function.isFallback) rest
      = (rest.zipIdx before.length).flatMap fun indexed =>
        (functionViolations contract indexed.2 ((before ++ rest).take indexed.2) indexed.1).map
          Violation.finding := by
  induction rest generalizing before with
  | nil => rfl
  | cons function rest ih =>
    have own := functionFindings_eq contract before.length before function
    have others := ih (before ++ [function])
    simp only [List.length_append, List.length_singleton, List.any_append, List.any_cons, List.any_nil,
      Bool.or_false, List.append_assoc, List.singleton_append] at others
    rw [functionsFindings, List.zipIdx_cons, List.flatMap_cons, others, List.take_left, ← own]
    rfl

theorem contractFindings_eq {index : Nat} {seen : List Text} {before : List Contract} {contract : Contract}
    (known : ∀ name, seen.contains name = before.any (·.qualifiedName == name)) :
    contractFindings (pathTo (.contract index)) seen contract
      = (contractViolations index before contract).map Violation.finding := by
  have inside := functionsFindings_eq index [] contract.functions
  rw [contractFindings, contractViolations, List.map_append, List.map_append, known, locationFindings_eq,
    List.map_flatMap, apply_ite (List.map Violation.finding)]
  exact congrArg _ inside

theorem findings_result (contract : Contract) (findings : List Finding) :
    Result.findings (match findings with
      | [] => .valid (some contract)
      | findings => .invalid findings) = findings := by
  cases findings <;> rfl

/-- The scan over the contracts, begun behind some of them, has seen their names. -/
theorem contractResults_eq {seen : List Text} {before : List Contract} (rest : List Contract)
    (known : ∀ name, seen.contains name = before.any (·.qualifiedName == name)) :
    (contractResults before.length seen rest).flatMap Result.findings
      = (rest.zipIdx before.length).flatMap fun indexed =>
        (contractViolations indexed.2 ((before ++ rest).take indexed.2) indexed.1).map Violation.finding := by
  induction rest generalizing before seen with
  | nil => rfl
  | cons contract rest ih =>
    have further (name : Text) : (contract.qualifiedName :: seen).contains name
        = (before ++ [contract]).any (·.qualifiedName == name) := by
      rw [List.contains_cons, known, List.any_append, List.any_cons, List.any_nil, Bool.or_false, Bool.or_comm,
        BEq.comm]
    have own : contractFindings (pathTo (.contract before.length)) seen contract
        = (contractViolations before.length before contract).map Violation.finding := contractFindings_eq known
    have others := ih further
    simp only [List.length_append, List.length_singleton, List.append_assoc, List.singleton_append] at others
    rw [contractResults, List.zipIdx_cons, List.flatMap_cons, List.flatMap_cons, List.take_left, others, ← own]
    exact congrArg (· ++ _) (findings_result contract _)

theorem sourceUnitFindings_eq (source : SourceUnit) :
    sourceUnitFindings source = (violations source).map Violation.finding := by
  have all := @contractResults_eq [] [] source.contracts fun _ => rfl
  rw [sourceUnitFindings, findings_combine, violations, List.map_flatMap]
  exact all

/-! ## They are what occurs -/

theorem mem_invertedAt {violation : Violation} {place : Place} {location : Location} :
    violation ∈ invertedAt place location ↔
      violation = .inverted place location ∧ location.isInverted = true := by
  unfold invertedAt
  split
  · rename_i inverted
    simp [inverted]
  · rename_i inOrder
    simp [inOrder]

theorem mem_namingViolations {violation : Violation} {contract index : Nat} {before : List Function}
    {function : Function} :
    violation ∈ namingViolations contract index before function ↔
      (violation = .namedFallback contract index function.name ∧ function.kind = .fallback
        ∧ function.name.isEmpty = false)
      ∨ (violation = .repeatedFallback contract index ∧ function.kind = .fallback
        ∧ ∃ earlier ∈ before, earlier.kind = .fallback)
      ∨ (violation = .unnamedFunction contract index ∧ function.kind = .ordinary
        ∧ function.name.isEmpty = true) := by
  unfold namingViolations
  cases kind : function.kind with
  | fallback =>
    cases named : function.name.isEmpty <;> simp [Function.isFallback, and_comm]
  | ordinary =>
    cases named : function.name.isEmpty <;> simp
  | creation => simp

theorem mem_bodyViolations {violation : Violation} {contract index : Nat} {body : Option Block} :
    violation ∈ bodyViolations contract index body ↔
      ∃ way location, violation = .inverted (.body contract index way) location
        ∧ location.isInverted = true
        ∧ body.bind (fun body => body.asStatement.locationAt? way) = some location := by
  cases body with
  | none => simp [bodyViolations]
  | some body =>
    simp only [bodyViolations, List.mem_flatMap, mem_invertedAt, Option.bind_some, ← Statement.mem_places]
    constructor
    · rintro ⟨⟨way, location⟩, listed, same, inverted⟩
      exact ⟨way, location, same, inverted, listed⟩
    · rintro ⟨way, location, same, inverted, listed⟩
      exact ⟨(way, location), listed, same, inverted⟩

theorem mem_functionViolations {violation : Violation} {contract index : Nat} {before : List Function}
    {function : Function} :
    violation ∈ functionViolations contract index before function ↔
      (violation = .inverted (.function contract index) function.location
        ∧ function.location.isInverted = true)
      ∨ violation ∈ namingViolations contract index before function
      ∨ violation ∈ bodyViolations contract index function.body := by
  rw [functionViolations, List.mem_append, List.mem_append, mem_invertedAt, or_assoc]

theorem mem_contractViolations {violation : Violation} {index : Nat} {before : List Contract}
    {contract : Contract} :
    violation ∈ contractViolations index before contract ↔
      (violation = .repeatedName index contract.qualifiedName
        ∧ ∃ earlier ∈ before, earlier.qualifiedName = contract.qualifiedName)
      ∨ (violation = .inverted (.contract index) contract.location ∧ contract.location.isInverted = true)
      ∨ ∃ position function, contract.functions[position]? = some function
        ∧ violation ∈ functionViolations index position (contract.functions.take position) function := by
  rw [contractViolations, List.mem_append, List.mem_append, mem_invertedAt, or_assoc]
  refine or_congr ?_ (or_congr Iff.rfl ?_)
  · simp [and_comm]
  · simp only [List.mem_flatMap, List.mem_zipIdx_iff_getElem?]
    constructor
    · rintro ⟨⟨function, position⟩, found, listed⟩
      exact ⟨position, function, found, listed⟩
    · rintro ⟨position, function, found, listed⟩
      exact ⟨(function, position), found, listed⟩

theorem mem_violations_of_contract {violation : Violation} {source : SourceUnit} :
    violation ∈ violations source ↔ ∃ index contract, source.contracts[index]? = some contract
      ∧ violation ∈ contractViolations index (source.contracts.take index) contract := by
  simp only [violations, List.mem_flatMap, List.mem_zipIdx_iff_getElem?]
  constructor
  · rintro ⟨⟨contract, index⟩, found, listed⟩
    exact ⟨index, contract, found, listed⟩
  · rintro ⟨index, contract, found, listed⟩
    exact ⟨(contract, index), found, listed⟩

theorem functionAt?_eq_some {source : SourceUnit} {index position : Nat} {function : Function} :
    source.functionAt? index position = some function ↔
      ∃ contract, source.contracts[index]? = some contract ∧ contract.functions[position]? = some function :=
  Option.bind_eq_some_iff

/-- What is listed occurs where it says. -/
theorem occurs_of_mem {violation : Violation} {source : SourceUnit} (listed : violation ∈ violations source) :
    violation.Occurs source := by
  obtain ⟨index, contract, found, listed⟩ := mem_violations_of_contract.mp listed
  rcases mem_contractViolations.mp listed with ⟨rfl, earlier⟩ | ⟨rfl, inverted⟩ | ⟨position, function, there, listed⟩
  · exact ⟨contract, found, rfl, earlier⟩
  · exact ⟨by rw [SourceUnit.locationAt?, found, Option.map_some], inverted⟩
  have known : source.functionAt? index position = some function := functionAt?_eq_some.mpr ⟨contract, found, there⟩
  rcases mem_functionViolations.mp listed with ⟨rfl, inverted⟩ | naming | inBody
  · exact ⟨by rw [SourceUnit.locationAt?, known, Option.map_some], inverted⟩
  · rcases mem_namingViolations.mp naming with ⟨rfl, kind, named⟩ | ⟨rfl, kind, earlier⟩ | ⟨rfl, kind, unnamed⟩
    · exact ⟨function, known, kind, rfl, named⟩
    · exact ⟨contract, function, found, there, kind, earlier⟩
    · exact ⟨function, known, kind, unnamed⟩
  · obtain ⟨way, location, rfl, inverted, place⟩ := mem_bodyViolations.mp inBody
    refine ⟨?_, inverted⟩
    rw [SourceUnit.locationAt?, SourceUnit.statementAt?, known, Option.bind_some, Option.bind_assoc]
    exact place

theorem mem_of_function {violation : Violation} {source : SourceUnit} {index position : Nat}
    {contract : Contract} {function : Function} (found : source.contracts[index]? = some contract)
    (there : contract.functions[position]? = some function)
    (listed : violation ∈ functionViolations index position (contract.functions.take position) function) :
    violation ∈ violations source :=
  mem_violations_of_contract.mpr
    ⟨index, contract, found, mem_contractViolations.mpr (.inr (.inr ⟨position, function, there, listed⟩))⟩

/-- What occurs at a place is listed. -/
theorem mem_inverted {source : SourceUnit} {place : Place} {location : Location}
    (known : source.locationAt? place = some location) (inverted : location.isInverted = true) :
    .inverted place location ∈ violations source := by
  cases place with
  | contract index =>
    obtain ⟨contract, found, rfl⟩ := Option.map_eq_some_iff.mp known
    refine mem_violations_of_contract.mpr ⟨index, contract, found, ?_⟩
    exact mem_contractViolations.mpr (.inr (.inl ⟨rfl, inverted⟩))
  | function index position =>
    obtain ⟨function, reached, rfl⟩ := Option.map_eq_some_iff.mp known
    obtain ⟨contract, found, there⟩ := functionAt?_eq_some.mp reached
    exact mem_of_function found there (mem_functionViolations.mpr (.inl ⟨rfl, inverted⟩))
  | body index position way =>
    rw [SourceUnit.locationAt?, SourceUnit.statementAt?, Option.bind_assoc, Option.bind_assoc] at known
    obtain ⟨function, reached, inside⟩ := Option.bind_eq_some_iff.mp known
    obtain ⟨contract, found, there⟩ := functionAt?_eq_some.mp reached
    refine mem_of_function found there (mem_functionViolations.mpr (.inr (.inr ?_)))
    exact mem_bodyViolations.mpr ⟨way, location, rfl, inverted, inside⟩

theorem mem_of_occurs {violation : Violation} {source : SourceUnit} (occurs : violation.Occurs source) :
    violation ∈ violations source := by
  cases violation with
  | repeatedName index name =>
    obtain ⟨contract, found, rfl, earlier⟩ := occurs
    refine mem_violations_of_contract.mpr ⟨index, contract, found, ?_⟩
    exact mem_contractViolations.mpr (.inl ⟨rfl, earlier⟩)
  | inverted place location => exact mem_inverted occurs.1 occurs.2
  | namedFallback index position name =>
    obtain ⟨function, known, kind, rfl, named⟩ := occurs
    obtain ⟨contract, found, there⟩ := functionAt?_eq_some.mp known
    refine mem_of_function found there (mem_functionViolations.mpr (.inr (.inl ?_)))
    exact mem_namingViolations.mpr (.inl ⟨rfl, kind, named⟩)
  | repeatedFallback index position =>
    obtain ⟨contract, function, found, there, kind, earlier⟩ := occurs
    refine mem_of_function found there (mem_functionViolations.mpr (.inr (.inl ?_)))
    exact mem_namingViolations.mpr (.inr (.inl ⟨rfl, kind, earlier⟩))
  | unnamedFunction index position =>
    obtain ⟨function, known, kind, unnamed⟩ := occurs
    obtain ⟨contract, found, there⟩ := functionAt?_eq_some.mp known
    refine mem_of_function found there (mem_functionViolations.mpr (.inr (.inl ?_)))
    exact mem_namingViolations.mpr (.inr (.inr ⟨rfl, kind, unnamed⟩))

/-! ## They are in order -/

theorem pairwise_zipIdx {α : Type} (list : List α) (start : Nat) :
    (list.zipIdx start).Pairwise fun first second => first.2 < second.2 := by
  have indices : (List.range' start list.length).Pairwise (· < ·) := List.pairwise_lt_range' 1
  rwa [← List.zipIdx_map_snd, List.pairwise_map] at indices

theorem rank_of_naming {violation : Violation} {contract index : Nat} {before : List Function}
    {function : Function} (listed : violation ∈ namingViolations contract index before function) :
    ∃ check, 0 < check ∧ check < 4 ∧ violation.rank = [contract, 2, index, check] := by
  rcases mem_namingViolations.mp listed with ⟨rfl, -⟩ | ⟨rfl, -⟩ | ⟨rfl, -⟩
  · exact ⟨1, by decide, by decide, rfl⟩
  · exact ⟨2, by decide, by decide, rfl⟩
  · exact ⟨3, by decide, by decide, rfl⟩

theorem rank_of_body {violation : Violation} {contract index : Nat} {body : Option Block}
    (listed : violation ∈ bodyViolations contract index body) :
    ∃ way, violation.rank = contract :: 2 :: index :: 4 :: way := by
  obtain ⟨way, location, rfl, -⟩ := mem_bodyViolations.mp listed
  exact ⟨way, rfl⟩

theorem rank_of_function {violation : Violation} {contract index : Nat} {before : List Function}
    {function : Function} (listed : violation ∈ functionViolations contract index before function) :
    ∃ rest, violation.rank = contract :: 2 :: index :: rest := by
  rcases mem_functionViolations.mp listed with ⟨rfl, -⟩ | naming | inBody
  · exact ⟨_, rfl⟩
  · obtain ⟨check, -, -, rank⟩ := rank_of_naming naming
    exact ⟨_, rank⟩
  · obtain ⟨way, rank⟩ := rank_of_body inBody
    exact ⟨_, rank⟩

theorem rank_of_contract {violation : Violation} {index : Nat} {before : List Contract}
    {contract : Contract} (listed : violation ∈ contractViolations index before contract) :
    ∃ rest, violation.rank = index :: rest := by
  rcases mem_contractViolations.mp listed with ⟨rfl, -⟩ | ⟨rfl, -⟩ | ⟨position, function, -, inside⟩
  · exact ⟨_, rfl⟩
  · exact ⟨_, rfl⟩
  · obtain ⟨rest, rank⟩ := rank_of_function inside
    exact ⟨_, rank⟩

theorem pairwise_invertedAt (place : Place) (location : Location) :
    (invertedAt place location).Pairwise Violation.Before := by
  unfold invertedAt
  split
  · exact List.pairwise_singleton _ _
  · exact .nil

theorem pairwise_namingViolations (contract index : Nat) (before : List Function) (function : Function) :
    (namingViolations contract index before function).Pairwise Violation.Before := by
  have apart : Violation.Before (.namedFallback contract index function.name) (.repeatedFallback contract index) := by
    simp [Violation.Before, Violation.rank, List.cons_lt_cons_iff]
  unfold namingViolations
  split
  · split <;> split <;> simp [apart]
  · split <;> simp
  · exact .nil

theorem pairwise_bodyViolations (contract index : Nat) (body : Option Block) :
    (bodyViolations contract index body).Pairwise Violation.Before := by
  cases body with
  | none => exact .nil
  | some body =>
    rw [bodyViolations, List.pairwise_flatMap]
    refine ⟨fun _ _ => pairwise_invertedAt _ _, (Statement.places_ordered body.asStatement).imp ?_⟩
    intro first second before violation here other there
    obtain ⟨rfl, -⟩ := mem_invertedAt.mp here
    obtain ⟨rfl, -⟩ := mem_invertedAt.mp there
    simpa [Violation.Before, Violation.rank, List.cons_lt_cons_iff] using before

theorem pairwise_functionViolations (contract index : Nat) (before : List Function) (function : Function) :
    (functionViolations contract index before function).Pairwise Violation.Before := by
  rw [functionViolations, List.pairwise_append, List.pairwise_append]
  refine ⟨⟨pairwise_invertedAt _ _, pairwise_namingViolations _ _ _ _, ?_⟩, pairwise_bodyViolations _ _ _, ?_⟩
  · intro violation here other there
    obtain ⟨rfl, -⟩ := mem_invertedAt.mp here
    obtain ⟨check, low, -, later⟩ := rank_of_naming there
    rw [Violation.Before, later]
    simp [Violation.rank, List.cons_lt_cons_iff, low]
  · intro violation here other there
    obtain ⟨way, later⟩ := rank_of_body there
    rcases List.mem_append.mp here with location | naming
    · obtain ⟨rfl, -⟩ := mem_invertedAt.mp location
      rw [Violation.Before, later]
      simp [Violation.rank, List.cons_lt_cons_iff]
    · obtain ⟨check, -, high, rank⟩ := rank_of_naming naming
      simp [Violation.Before, rank, later, List.cons_lt_cons_iff, high]

theorem pairwise_contractViolations (index : Nat) (before : List Contract) (contract : Contract) :
    (contractViolations index before contract).Pairwise Violation.Before := by
  rw [contractViolations, List.pairwise_append, List.pairwise_append]
  refine ⟨⟨?_, pairwise_invertedAt _ _, ?_⟩, ?_, ?_⟩
  · split
    · exact List.pairwise_singleton _ _
    · exact .nil
  · intro violation here other there
    obtain ⟨rfl, -⟩ := mem_invertedAt.mp there
    split at here
    · obtain rfl := List.mem_singleton.mp here
      simp [Violation.Before, Violation.rank, List.cons_lt_cons_iff]
    · contradiction
  · rw [List.pairwise_flatMap]
    refine ⟨fun _ _ => pairwise_functionViolations _ _ _ _, (pairwise_zipIdx contract.functions 0).imp ?_⟩
    intro first second less violation here other there
    obtain ⟨rest, rank⟩ := rank_of_function here
    obtain ⟨more, later⟩ := rank_of_function there
    simp [Violation.Before, rank, later, List.cons_lt_cons_iff, less]
  · intro violation here other there
    obtain ⟨indexed, -, inside⟩ := List.mem_flatMap.mp there
    obtain ⟨rest, later⟩ := rank_of_function inside
    rcases List.mem_append.mp here with name | location
    · split at name
      · obtain rfl := List.mem_singleton.mp name
        rw [Violation.Before, later]
        simp [Violation.rank, List.cons_lt_cons_iff]
      · contradiction
    · obtain ⟨rfl, -⟩ := mem_invertedAt.mp location
      rw [Violation.Before, later]
      simp [Violation.rank, List.cons_lt_cons_iff]

/-- Every violation comes before those that are listed behind it, so none is listed twice. -/
theorem pairwise_violations (source : SourceUnit) : (violations source).Pairwise Violation.Before := by
  rw [violations, List.pairwise_flatMap]
  refine ⟨fun _ _ => pairwise_contractViolations _ _ _, (pairwise_zipIdx source.contracts 0).imp ?_⟩
  intro first second less violation here other there
  obtain ⟨rest, rank⟩ := rank_of_contract here
  obtain ⟨more, later⟩ := rank_of_contract there
  simp [Violation.Before, rank, later, List.cons_lt_cons_iff, less]

end ContractAsm.Validation

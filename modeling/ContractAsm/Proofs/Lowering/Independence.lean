import ContractAsm.Proofs.Lowering.Caching
import ContractAsm.Proofs.Lowering.Registrations
import Mathlib

/-!
# Contracts are lowered independently

What a contract is lowered to depends on the contract alone. The registry it goes into, the
contracts before it, what was read of snippets and whether anything is shown have no part in
it, as long as its name is free. So the contracts of a unit may stand in any order.
-/

namespace ContractAsm.Lowering

open Source (Contract SourceUnit)

/-! ## One contract -/

/-- The block of a contract. No registry takes part in it. -/
def blockOf (contract : Contract) : Except Failure Ir.Block := do
  admitContract contract
  let definitions ← (lowerFunctions contract.functions).result
  appendDispatcher contract (.mk definitions (some contract.location))

def entryOf (contract : Contract) : Except Failure LoweredContract :=
  (blockOf contract).map fun block => ⟨contract.qualifiedName, block⟩

theorem result_lowerContract {registry : Registry} {contract : Contract}
    (free : registry.has contract.qualifiedName = false) :
    (lowerContract registry contract).result
      = (entryOf contract).map fun entry => (entry, ⟨registry.entries ++ [entry]⟩) := by
  -- The dispatcher is only a name here, or checking the proof would run it.
  obtain ⟨dispatch, named⟩ : ∃ dispatch, dispatch = appendDispatcher contract := ⟨_, rfl⟩
  have registered (block : Ir.Block) : registry.register contract.qualifiedName block
      = .ok ⟨registry.entries ++ [⟨contract.qualifiedName, block⟩]⟩ := by
    rw [Registry.register, free]
    rfl
  unfold entryOf blockOf lowerContract
  rw [← named]
  simp only [free, Bool.false_eq_true, if_false, Traced.result_bind, Traced.result_ofExcept, registered]
  cases admitContract contract with
  | error => rfl
  | ok =>
    show (Except.ok () >>= fun _ => (lowerFunctions contract.functions).result >>= _) = _
    cases (lowerFunctions contract.functions).result with
    | error => rfl
    | ok definitions =>
      show (dispatch (.mk definitions (some contract.location)) >>= _)
        = Except.map _ (Except.map _ (dispatch _))
      cases dispatch (.mk definitions (some contract.location)) with
      | error => rfl
      | ok => rfl

/-! ## Contracts in a row -/

/-- The names of the contracts are free in the registry, and there are no two of one name. -/
structure FreeIn (registry : Registry) (contracts : List Contract) : Prop where
  distinct : (contracts.map Contract.qualifiedName).Nodup
  free : ∀ contract ∈ contracts, registry.has contract.qualifiedName = false

/-- Each contract has the entry at its place, whatever stands before it. -/
def LoweredApart (contracts : List Contract) (lowered : List LoweredContract) : Prop :=
  List.Forall₂ (fun contract entry => entryOf contract = .ok entry) contracts lowered

section

variable {registry : Registry} {contract : Contract} {rest contracts reordered : List Contract}
  {entry : LoweredContract} {lowered : List LoweredContract}

theorem name_of_entryOf (here : entryOf contract = .ok entry) : entry.name = contract.qualifiedName := by
  obtain ⟨block, -, rfl⟩ := ok_of_map here
  rfl

theorem FreeIn.perm (free : FreeIn registry contracts) (perm : reordered.Perm contracts) :
    FreeIn registry reordered where
  distinct := (perm.map _).nodup_iff.mpr free.distinct
  free := fun contract member => free.free contract (perm.mem_iff.mp member)

theorem FreeIn.tail (free : FreeIn registry (contract :: rest)) (here : entryOf contract = .ok entry) :
    FreeIn ⟨registry.entries ++ [entry]⟩ rest where
  distinct := (List.nodup_cons.mp free.distinct).2
  free := by
    intro other member
    have names : (⟨registry.entries ++ [entry]⟩ : Registry).names = registry.names ++ [entry.name] :=
      List.map_append
    have apart : other.qualifiedName ≠ entry.name := by
      intro same
      rw [name_of_entryOf here] at same
      exact (List.nodup_cons.mp free.distinct).1 (List.mem_map.mpr ⟨other, member, same⟩)
    have fresh : other.qualifiedName ∉ registry.names := by
      simpa [Registry.has] using free.free other (List.mem_cons_of_mem _ member)
    rw [Registry.has, names]
    simp [apart, fresh]

theorem LoweredApart.names (apart : LoweredApart contracts lowered) :
    lowered.map LoweredContract.name = contracts.map Contract.qualifiedName := by
  induction apart with
  | nil => rfl
  | cons here _ ih => rw [List.map_cons, List.map_cons, name_of_entryOf here, ih]

theorem exists_loweredApart :
    (∃ lowered, LoweredApart contracts lowered)
      ↔ ∀ contract ∈ contracts, ∃ entry, entryOf contract = .ok entry := by
  induction contracts with
  | nil => exact ⟨fun _ => nofun, fun _ => ⟨[], .nil⟩⟩
  | cons contract rest ih =>
    rw [List.forall_mem_cons, ← ih]
    constructor
    · intro ⟨lowered, apart⟩
      cases apart with
      | cons here others => exact ⟨⟨_, here⟩, _, others⟩
    · intro ⟨⟨entry, here⟩, more, others⟩
      exact ⟨entry :: more, .cons here others⟩

theorem LoweredApart.perm (apart : LoweredApart contracts lowered) (perm : contracts.Perm reordered) :
    ∃ more, LoweredApart reordered more ∧ (contracts.zip lowered).Perm (reordered.zip more) := by
  -- The permutation is followed step by step, and entries move with their contracts.
  induction perm generalizing lowered with
  | nil =>
    cases apart
    exact ⟨[], .nil, .nil⟩
  | cons contract _ ih =>
    cases apart with
    | cons here others =>
      obtain ⟨more, others, moved⟩ := ih others
      exact ⟨_ :: more, .cons here others, .cons _ moved⟩
  | swap first second rest =>
    cases apart with
    | cons here others =>
      cases others with
      | cons next others => exact ⟨_ :: _ :: _, .cons next (.cons here others), .swap _ _ _⟩
  | trans _ _ ih again =>
    obtain ⟨middle, between, moved⟩ := ih apart
    obtain ⟨more, others, further⟩ := again between
    exact ⟨more, others, moved.trans further⟩

/-- Contracts in a row are lowered as each of them is, and fail if one of them does. -/
theorem result_lowerContracts_iff (free : FreeIn registry contracts) :
    (lowerContracts registry contracts).result = .ok lowered ↔ LoweredApart contracts lowered := by
  induction contracts generalizing registry lowered with
  | nil =>
    show Except.ok [] = Except.ok lowered ↔ _
    rw [LoweredApart, List.forall₂_nil_left_iff, Except.ok.injEq, eq_comm]
  | cons contract rest ih =>
    rw [result_lowerContracts_cons, result_lowerContract (free.free contract List.mem_cons_self)]
    rw [LoweredApart, List.forall₂_cons_left_iff]
    cases here : entryOf contract with
    | error failure =>
      constructor
      · exact nofun
      · exact nofun
    | ok entry =>
      -- The registry has grown by the entry, and the names of the rest are still free in it.
      have others := fun more => @ih _ more (free.tail here)
      show (lowerContracts ⟨registry.entries ++ [entry]⟩ rest).result.map (entry :: ·) = .ok lowered ↔ _
      constructor
      · intro done
        obtain ⟨more, lowers, rfl⟩ := ok_of_map done
        exact ⟨entry, more, rfl, (others more).mp lowers, rfl⟩
      · intro ⟨same, more, first, apart, whole⟩
        cases first
        rw [(others more).mpr apart, whole]
        rfl

theorem loweredInTurn_of_ok (done : (lowerContracts registry contracts).result = .ok lowered) :
    loweredInTurn registry contracts = lowered := by
  induction contracts generalizing registry lowered with
  | nil =>
    cases done
    rfl
  | cons contract rest ih =>
    rw [result_lowerContracts_cons] at done
    rw [loweredInTurn]
    cases outcome : (lowerContract registry contract).result with
    | error =>
      rw [outcome] at done
      contradiction
    | ok first =>
      rw [outcome] at done
      obtain ⟨more, others, rfl⟩ := ok_of_map done
      exact congrArg _ (ih others)

end

/-! ## What registries know -/

namespace Registry

variable {registry : Registry}

theorem get?_eq_some_iff (distinct : registry.names.Nodup) (name : Text) (block : Ir.Block) :
    registry.get? name = some block ↔ ⟨name, block⟩ ∈ registry.entries := by
  constructor
  · intro found
    obtain ⟨entry, first, rfl⟩ := Option.map_eq_some_iff.mp found
    have named : entry.name = name := by simpa using List.find?_some first
    subst named
    exact List.mem_of_find?_eq_some first
  · exact get?_of_mem distinct

theorem get?_perm {first second : List LoweredContract} (perm : first.Perm second)
    (distinct : (first.map LoweredContract.name).Nodup) (name : Text) :
    (⟨first⟩ : Registry).get? name = (⟨second⟩ : Registry).get? name := by
  have others : (second.map LoweredContract.name).Nodup := (perm.map _).nodup_iff.mp distinct
  apply Option.ext
  intro block
  rw [get?_eq_some_iff distinct, get?_eq_some_iff others, perm.mem_iff]

theorem get?_append (registry : Registry) (added : List LoweredContract) (name : Text) :
    (⟨registry.entries ++ added⟩ : Registry).get? name
      = (registry.get? name).or ((⟨added⟩ : Registry).get? name) := by
  simp only [get?, List.find?_append, Option.map_or]

end Registry

/-! ## Generators -/

/-- A contract is lowered to this by a generator with a registry of its own. -/
def IsLoweredAlone (verbose : Bool) (cache : SnippetCache) (contract : Contract)
    (entry : LoweredContract) : Prop :=
  ((Generator.fresh verbose).lowerContract cache contract).result = .ok entry

section

variable {cache : SnippetCache}

theorem isLoweredAlone_iff (verbose : Bool) (sound : cache.IsSound) (contract : Contract)
    (entry : LoweredContract) :
    IsLoweredAlone verbose cache contract entry ↔ entryOf contract = .ok entry := by
  obtain ⟨after, -, same⟩ := (Generator.fresh verbose).lowerContract_eq sound contract
  have apart : (lowerContract (Generator.fresh verbose).registry contract).result
      = (entryOf contract).map fun entry => (entry, ⟨[entry]⟩) := result_lowerContract rfl
  rw [IsLoweredAlone, same]
  generalize lowerContract (Generator.fresh verbose).registry contract = outcome at apart
  obtain ⟨lines, result⟩ := outcome
  rw [show result = _ from apart]
  cases entryOf contract with
  | error => exact ⟨nofun, nofun⟩
  | ok => exact Iff.rfl

variable {generator : Generator} {source : SourceUnit} {lowered : List LoweredContract}

namespace Generator

theorem result_lowerUnit_iff (sound : cache.IsSound) (free : FreeIn generator.registry source.contracts)
    (lowered : List LoweredContract) :
    (generator.lowerUnit cache source).result = .ok lowered ↔ LoweredApart source.contracts lowered := by
  have follows := generator.follows_lowerContracts sound source.contracts
  rw [← result_lowerContracts_iff free, lowerUnit, follows.result]

theorem registry_lowerUnit (sound : cache.IsSound)
    (done : (generator.lowerUnit cache source).result = .ok lowered) :
    (generator.lowerUnit cache source).generator.registry = ⟨generator.registry.entries ++ lowered⟩ := by
  have follows := generator.follows_lowerContracts sound source.contracts
  have entries := (extends_lowerContracts generator.registry source.contracts).entries
  rw [loweredInTurn_of_ok (follows.result.symm.trans done)] at entries
  rw [lowerUnit, follows.generator, ← entries]

end Generator

end

/-- Contracts are lowered independently. A generator that has done anything before lowers
contracts with free names if a generator of its own lowers each of them, and then to the same.
In another order they are lowered just so, and the registry knows the same blocks. -/
theorem lowerUnit_independent {generator : Generator} {cache other : SnippetCache} {source : SourceUnit}
    (reached : cache.Reached) (alone : other.Reached) (free : FreeIn generator.registry source.contracts)
    (verbose : Bool) :
    ((∃ lowered, (generator.lowerUnit cache source).result = .ok lowered)
        ↔ ∀ contract ∈ source.contracts, ∃ entry, IsLoweredAlone verbose other contract entry)
      ∧ (∀ lowered, (generator.lowerUnit cache source).result = .ok lowered →
        List.Forall₂ (IsLoweredAlone verbose other) source.contracts lowered)
      ∧ ∀ reordered : SourceUnit, source.contracts.Perm reordered.contracts →
        let again : Generator := ⟨generator.registry, verbose⟩
        ((∃ lowered, (again.lowerUnit other reordered).result = .ok lowered)
          ↔ ∃ lowered, (generator.lowerUnit cache source).result = .ok lowered)
        ∧ ∀ lowered, (generator.lowerUnit cache source).result = .ok lowered →
          ∃ more, (again.lowerUnit other reordered).result = .ok more
            ∧ (source.contracts.zip lowered).Perm (reordered.contracts.zip more)
            ∧ ∀ name, (again.lowerUnit other reordered).generator.registry.get? name
              = (generator.lowerUnit cache source).generator.registry.get? name := by
  have first := Generator.result_lowerUnit_iff reached.isSound free
  have separate := isLoweredAlone_iff verbose alone.isSound
  refine ⟨?_, ?_, ?_⟩
  · simp only [first, separate]
    exact exists_loweredApart
  · intro lowered done
    exact ((first lowered).mp done).imp fun contract entry => (separate contract entry).mpr
  · intro reordered perm again
    have second := @Generator.result_lowerUnit_iff _ again reordered alone.isSound (free.perm perm.symm)
    constructor
    · simp only [first, second, exists_loweredApart, perm.mem_iff]
    · intro lowered done
      have apart := (first lowered).mp done
      obtain ⟨more, others, moved⟩ := apart.perm perm
      refine ⟨more, (second more).mpr others, moved, fun name => ?_⟩
      have same : more.Perm lowered := by
        have entries := moved.map Prod.snd
        rw [List.map_snd_zip (Nat.le_of_eq apart.length_eq.symm),
          List.map_snd_zip (Nat.le_of_eq others.length_eq.symm)] at entries
        exact entries.symm
      have distinct : (more.map LoweredContract.name).Nodup := by
        rw [others.names]
        exact (free.perm perm.symm).distinct
      rw [Generator.registry_lowerUnit reached.isSound done,
        Generator.registry_lowerUnit alone.isSound ((second more).mpr others),
        Registry.get?_append, Registry.get?_append, Registry.get?_perm same distinct]

def throwingContract (name : Text) : Contract :=
  let place : Location := .ofOffsets 0 9 "a"
  let function : Source.Function :=
    ⟨"f", .ordinary, .outside, .payable, true, [], [], [], some ⟨[.throw place], place⟩, place⟩
  ⟨name, name, .contract, [], [], [], [], [], [function], place⟩

/-- Two contracts are lowered by a generator that knows another one already, and then the other
way round by one that remembers nothing and shows its lines. -/
theorem lowerUnit_independent_swapped :
    let known : Registry := ⟨[⟨"a:M", .mk [] none⟩]⟩
    let cache := ((Generator.fresh false).lowerContract .empty (throwingContract "a:M")).cache
    let contracts := [throwingContract "a:C", throwingContract "a:D"]
    let run := (⟨known, false⟩ : Generator).lowerUnit cache ⟨"a", contracts⟩
    let again := (⟨known, true⟩ : Generator).lowerUnit .empty ⟨"a", contracts.reverse⟩
    ∃ lowered more, run.result = .ok lowered
      ∧ List.Forall₂ (IsLoweredAlone true .empty) contracts lowered
      ∧ again.result = .ok more
      ∧ (contracts.zip lowered).Perm (contracts.reverse.zip more)
      ∧ ∀ name, again.generator.registry.get? name = run.generator.registry.get? name := by
  intro known cache contracts
  dsimp only
  have reached : cache.Reached := .lowered .start (.fresh false) (throwingContract "a:M")
  have free : FreeIn known contracts := ⟨by decide, by decide⟩
  obtain ⟨succeeds, alone, others⟩ :=
    @lowerUnit_independent ⟨known, false⟩ cache .empty ⟨"a", contracts⟩ reached .start free true
  dsimp only at others
  have entries : ∀ contract ∈ contracts, ∃ entry, IsLoweredAlone true .empty contract entry := by
    have entry (name : Text) : ∃ entry, IsLoweredAlone true .empty (throwingContract name) entry := by
      obtain ⟨first, done⟩ := (reports_contract .empty (throwingContract name)).ok_iff.mpr rfl
      rw [result_lowerContract rfl] at done
      obtain ⟨entry, here, -⟩ := ok_of_map done
      exact ⟨entry, (isLoweredAlone_iff true SnippetCache.isSound_empty _ entry).mpr here⟩
    simp only [contracts, List.forall_mem_cons, entry, true_and]
    exact nofun
  obtain ⟨lowered, done⟩ := succeeds.mpr entries
  obtain ⟨more, reversed, moved, same⟩ :=
    (others ⟨"a", contracts.reverse⟩ contracts.reverse_perm.symm).2 lowered done
  exact ⟨lowered, more, done, alone lowered done, reversed, moved, same⟩

end ContractAsm.Lowering

import ContractAsm.Lowering.Session
import ContractAsm.Proofs.Lowering.Outcome
import Mathlib.Data.List.Nodup

/-!
# Registries only grow

A run opens registries and performs operations on them in any order, and its ledger notes
every registration that succeeds. A registry holds what the ledger notes for its number, in
that order and under different names, so what stood in it once is never removed, replaced or
moved. An operation that fails takes back what it began, except that lowering a unit keeps the
contracts before the one it fails at.
-/

namespace ContractAsm.Lowering

open Source (Contract)

/-! ## Growth -/

/-- The entries are added behind those of the registry, under names that are free. -/
structure Extends (registry : Registry) (added : List LoweredContract) (after : Registry) : Prop where
  entries : after.entries = registry.entries ++ added
  distinct : registry.names.Nodup → after.names.Nodup

section

variable {registry middle after : Registry} {added more : List LoweredContract}

theorem Extends.refl (registry : Registry) : Extends registry [] registry :=
  ⟨(List.append_nil _).symm, id⟩

theorem Extends.trans (first : Extends registry added middle) (second : Extends middle more after) :
    Extends registry (added ++ more) after where
  entries := by rw [second.entries, first.entries, List.append_assoc]
  distinct := fun distinct => second.distinct (first.distinct distinct)

theorem Extends.single {entry : LoweredContract} (free : registry.has entry.name = false) :
    Extends registry [entry] ⟨registry.entries ++ [entry]⟩ where
  entries := rfl
  distinct := by
    intro distinct
    have fresh : entry.name ∉ registry.names := by
      intro taken
      rw [Registry.has, List.contains_iff_mem.mpr taken] at free
      contradiction
    have names : (⟨registry.entries ++ [entry]⟩ : Registry).names = registry.names ++ [entry.name] :=
      List.map_append
    rw [names, ← List.concat_eq_append]
    exact distinct.concat fresh

theorem Registry.get?_of_mem {entry : LoweredContract} (distinct : registry.names.Nodup)
    (member : entry ∈ registry.entries) : registry.get? entry.name = some entry.block := by
  have found : ∃ other, registry.entries.find? (fun other => other.name == entry.name) = some other :=
    Option.isSome_iff_exists.mp (List.find?_isSome.mpr ⟨entry, member, beq_self_eq_true _⟩)
  obtain ⟨other, found⟩ := found
  have named : other.name = entry.name := by simpa using List.find?_some found
  have same : other = entry :=
    List.inj_on_of_nodup_map distinct (List.mem_of_find?_eq_some found) member named
  rw [Registry.get?, found, same, Option.map_some]

end

/-! ## Registrations -/

/-- What lowering contracts in a row registers: those before the first that fails. -/
def loweredInTurn (registry : Registry) : List Contract → List LoweredContract
  | [] => []
  | contract :: rest =>
      match (lowerContract registry contract).result with
      | .ok (lowered, after) => lowered :: loweredInTurn after rest
      | .error _ => []

/-- What an operation registers, in order. -/
def Registry.registrations (registry : Registry) : Operation → List LoweredContract
  | .lowerUnit source => loweredInTurn registry source.contracts
  | .lowerContract contract => loweredInTurn registry [contract]
  | .lowerFunction _ => []
  | .register name block =>
      match registry.register name block with
      | .ok _ => [⟨name, block⟩]
      | .error _ => []

section

variable {registry after : Registry} {contract : Contract} {lowered : LoweredContract}

theorem free_of_lowerContract (done : (lowerContract registry contract).result = .ok (lowered, after)) :
    registry.has contract.qualifiedName = false := by
  have clean := ((reports_contract registry contract).held done).1
  have unrefused := (List.append_eq_nil_iff.mp (List.append_eq_nil_iff.mp clean).1).2
  cases taken : registry.has contract.qualifiedName with
  | false => rfl
  | true =>
    rw [taken] at unrefused
    contradiction

theorem extends_lowerContract (done : (lowerContract registry contract).result = .ok (lowered, after)) :
    Extends registry [lowered] after ∧ lowered.name = contract.qualifiedName := by
  have free := free_of_lowerContract done
  obtain ⟨-, helpers, whole⟩ := (reports_contract registry contract).held done
  cases whole
  exact ⟨.single free, rfl⟩

end

theorem extends_lowerContracts (registry : Registry) (contracts : List Contract) :
    Extends registry (loweredInTurn registry contracts) (lowerContracts registry contracts).registry := by
  induction contracts generalizing registry with
  | nil => exact .refl registry
  | cons contract rest ih =>
    rw [loweredInTurn, lowerContracts]
    cases outcome : lowerContract registry contract with
    | mk lines result =>
      have done : (lowerContract registry contract).result = result := by rw [outcome]
      cases result with
      | error => exact .refl registry
      | ok lowered => exact (extends_lowerContract done).1.trans (ih lowered.2)

theorem extends_register (registry : Registry) (name : Text) (block : Ir.Block) :
    Extends registry (registry.registrations (.register name block))
      (registry.perform (.register name block)).registry := by
  rw [Registry.registrations, Registry.perform, Registry.register]
  cases free : registry.has name with
  | true => exact .refl registry
  | false => exact @Extends.single registry ⟨name, block⟩ free

/-- An operation adds what it registers to its registry, and nothing else. -/
theorem extends_perform (registry : Registry) (operation : Operation) :
    Extends registry (registry.registrations operation) (registry.perform operation).registry := by
  cases operation with
  | lowerUnit source => exact extends_lowerContracts registry source.contracts
  | lowerContract contract =>
    rw [Registry.registrations, loweredInTurn, Registry.perform]
    cases outcome : lowerContract registry contract with
    | mk lines result =>
      have done : (lowerContract registry contract).result = result := by rw [outcome]
      cases result with
      | error => exact .refl registry
      | ok lowered => exact (extends_lowerContract done).1
  | lowerFunction function => exact .refl registry
  | register name block => exact extends_register registry name block

/-! ## Failures -/

/-- Where lowering contracts in a row fails: those before are lowered and registered, and this
one is not. -/
theorem failure_lowerContracts {registry : Registry} {contracts : List Contract} {failure : Failure}
    (failed : (lowerContracts registry contracts).result = .error failure) :
    ∃ before failing behind lowered, contracts = before ++ failing :: behind
      ∧ (lowerContracts registry before).result = .ok lowered
      ∧ lowered.map LoweredContract.name = before.map Contract.qualifiedName
      ∧ (lowerContracts registry contracts).registry = ⟨registry.entries ++ lowered⟩
      ∧ (lowerContract ⟨registry.entries ++ lowered⟩ failing).result = .error failure := by
  induction contracts generalizing registry with
  | nil => contradiction
  | cons contract rest ih =>
    cases outcome : lowerContract registry contract with
    | mk lines result =>
      have done : (lowerContract registry contract).result = result := by rw [outcome]
      cases result with
      | error first =>
        rw [result_lowerContracts_cons, done] at failed
        cases failed
        refine ⟨[], contract, rest, [], rfl, rfl, rfl, ?_, ?_⟩
        · rw [lowerContracts, outcome, List.append_nil]
        · rw [List.append_nil]
          exact done
      | ok first =>
        obtain ⟨grown, named⟩ := extends_lowerContract done
        have others : (lowerContracts first.2 rest).result = .error failure := by
          rw [result_lowerContracts_cons, done] at failed
          cases more : (lowerContracts first.2 rest).result with
          | ok =>
            simp [more, Except.map, bind, Except.bind] at failed
          | error other =>
            simpa [more, Except.map, bind, Except.bind] using failed
        obtain ⟨before, failing, behind, lowered, rfl, lowers, names, left, fails⟩ := ih others
        rw [grown.entries, List.append_assoc] at left fails
        refine ⟨contract :: before, failing, behind, first.1 :: lowered, rfl, ?_, ?_, ?_, fails⟩
        · rw [result_lowerContracts_cons, done]
          show (lowerContracts first.2 before).result.map (first.1 :: ·) = _
          rw [lowers, Except.map]
        · rw [List.map_cons, List.map_cons, named, names]
        · rw [lowerContracts, outcome]
          exact left

/-- What an operation that fails leaves of the session: everything as it was, except that
lowering a unit adds the contracts before the one it fails at to the registry it works on. -/
def Session.Leaves (session : Session) (number : Nat) (failure : Failure) (after : Session) :
    Operation → Prop
  | .lowerUnit source => ∃ before failing behind lowered, source.contracts = before ++ failing :: behind
      ∧ (lowerContracts (session.registry number) before).result = .ok lowered
      ∧ lowered.map LoweredContract.name = before.map Contract.qualifiedName
      ∧ after.registries
        = session.registries.set number ⟨(session.registry number).entries ++ lowered⟩
      ∧ (lowerContract (after.registry number) failing).result = .error failure
  | .lowerContract _ => after = session
  | .lowerFunction _ => after = session
  | .register _ _ => after = session

section

variable {session : Session} {number : Nat}

theorem Session.registry_set (opened : number < session.registries.length) (registry : Registry)
    (other : Nat) :
    (Session.mk (session.registries.set number registry)).registry other
      = if other = number then registry else session.registry other := by
  rw [Session.registry, Session.registry, List.getD_eq_getElem?_getD, List.getD_eq_getElem?_getD,
    List.getElem?_set]
  by_cases here : number = other
  · subst here
    rw [if_pos rfl, if_pos opened, if_pos rfl, Option.getD_some]
  · rw [if_neg here, if_neg (Ne.symm here)]

theorem Session.set_registry (opened : number < session.registries.length) :
    Session.mk (session.registries.set number (session.registry number)) = session := by
  have stands : session.registry number = session.registries[number] := by
    rw [Session.registry, List.getD_eq_getElem?_getD, List.getElem?_eq_getElem opened, Option.getD_some]
  rw [stands, List.set_getElem_self]

theorem Session.leaves_perform {operation : Operation} {failure : Failure}
    (opened : number < session.registries.length)
    (failed : (session.perform number operation).1.result = .error failure) :
    session.Leaves number failure (session.perform number operation).2 operation := by
  have unchanged : ((session.registry number).perform operation).registry = session.registry number →
      (session.perform number operation).2 = session := by
    intro same
    rw [Session.perform, same]
    exact Session.set_registry opened
  have failed : ((session.registry number).perform operation).result = .error failure := failed
  cases operation with
  | lowerUnit source =>
    have unlowered : (lowerContracts (session.registry number) source.contracts).result = .error failure := by
      rw [Registry.perform, lowerUnit] at failed
      cases outcome : (lowerContracts (session.registry number) source.contracts).result with
      | ok =>
        rw [outcome] at failed
        contradiction
      | error other =>
        rw [outcome] at failed
        cases failed
        rfl
    obtain ⟨before, failing, behind, lowered, split, lowers, names, left, fails⟩ :=
      failure_lowerContracts unlowered
    have after : (session.perform number (.lowerUnit source)).2
        = ⟨session.registries.set number ⟨(session.registry number).entries ++ lowered⟩⟩ := by
      rw [Session.perform, Registry.perform, lowerUnit, left]
    refine ⟨before, failing, behind, lowered, split, lowers, names, congrArg _ after, ?_⟩
    rw [after, Session.registry_set opened, if_pos rfl]
    exact fails
  | lowerContract contract =>
    apply unchanged
    rw [Registry.perform] at failed ⊢
    cases outcome : lowerContract (session.registry number) contract with
    | mk lines result =>
      cases result with
      | error => rfl
      | ok =>
        rw [outcome] at failed
        contradiction
  | lowerFunction function => exact unchanged rfl
  | register name block =>
    apply unchanged
    rw [Registry.perform] at failed ⊢
    cases outcome : (session.registry number).register name block with
    | error => rfl
    | ok =>
      rw [outcome] at failed
      contradiction

end

/-! ## Runs -/

/-- A registration that succeeded, with the number of the registry. -/
structure Registration where
  number : Nat
  contract : LoweredContract

def registered (number : Nat) (ledger : List Registration) : List LoweredContract :=
  ledger.filterMap fun entry => if entry.number = number then some entry.contract else none

def Session.registrations (session : Session) (number : Nat) (operation : Operation) :
    List Registration :=
  ((session.registry number).registrations operation).map (Registration.mk number)

/-- The second session is reached from the first by opening registries and by operations on
registries that are open; the ledger notes what was registered on the way. Generators are not
told apart: all that one of them does is to perform operations on its registry. -/
inductive Run (first : Session) : List Registration → Session → Prop where
  | start : Run first [] first
  | opened {ledger : List Registration} {session : Session} (run : Run first ledger session) :
      Run first ledger session.opened.2
  | performed {ledger : List Registration} {session : Session} (run : Run first ledger session)
      (number : Nat) (operation : Operation) (opened : number < session.registries.length) :
      Run first (ledger ++ session.registrations number operation) (session.perform number operation).2

theorem registered_append (number : Nat) (first second : List Registration) :
    registered number (first ++ second) = registered number first ++ registered number second :=
  List.filterMap_append

theorem registered_registrations (session : Session) (number other : Nat) (operation : Operation) :
    registered other (session.registrations number operation)
      = if other = number then (session.registry number).registrations operation else [] := by
  rw [registered, Session.registrations, List.filterMap_map]
  by_cases here : other = number
  · subst here
    rw [if_pos rfl]
    simp
  · rw [if_neg here, List.filterMap_eq_nil_iff]
    intro entry _
    exact if_neg (Ne.symm here)

theorem Session.registry_opened (session : Session) (number : Nat) :
    session.opened.2.registry number = session.registry number := by
  show (session.registries ++ [Registry.empty]).getD number .empty = session.registries.getD number .empty
  rw [List.getD_eq_getElem?_getD, List.getD_eq_getElem?_getD, List.getElem?_append]
  split
  · rfl
  · rename_i beyond
    rw [List.getElem?_eq_none (Nat.le_of_not_lt beyond)]
    cases number - session.registries.length with
    | zero => rfl
    | succ => rfl

/-- One operation adds what the ledger notes for it, to each registry its own. -/
theorem Session.extends_perform {session : Session} {number : Nat}
    (opened : number < session.registries.length) (operation : Operation) (other : Nat) :
    Extends (session.registry other) (registered other (session.registrations number operation))
      ((session.perform number operation).2.registry other) := by
  rw [registered_registrations, Session.perform, Session.registry_set opened]
  by_cases here : other = number
  · rw [if_pos here, if_pos here, here]
    exact Lowering.extends_perform _ operation
  · rw [if_neg here, if_neg here]
    exact .refl _

theorem Run.extends {first after : Session} {ledger : List Registration} (run : Run first ledger after)
    (number : Nat) : Extends (first.registry number) (registered number ledger) (after.registry number) := by
  induction run with
  | start => exact .refl _
  | opened run ih =>
    rw [Session.registry_opened]
    exact ih
  | performed run other operation opened ih =>
    rw [registered_append]
    exact ih.trans (Session.extends_perform opened operation number)

/-- In every session that is reached, a registry holds what was registered in it, in order and
under different names. Whatever the session goes on with, the entries stay in front and keep
what they are looked up as. An operation that fails leaves no more behind than
`Session.Leaves` says. -/
theorem registries_append_only {earlier further : List Registration} {session after : Session}
    (reached : Run .empty earlier session) (continued : Run session further after) :
    (∀ number, (session.registry number).names.Nodup
        ∧ (session.registry number).entries = registered number earlier)
      ∧ (∀ number,
        (after.registry number).entries = (session.registry number).entries ++ registered number further
        ∧ ∀ entry ∈ (session.registry number).entries,
          (after.registry number).get? entry.name = some entry.block)
      ∧ ∀ number operation failure, number < session.registries.length →
        (session.perform number operation).1.result = .error failure →
        session.Leaves number failure (session.perform number operation).2 operation := by
  have distinct (number : Nat) : (session.registry number).names.Nodup :=
    (reached.extends number).distinct List.nodup_nil
  refine ⟨fun number => ⟨distinct number, (reached.extends number).entries⟩, fun number => ?_, ?_⟩
  · have grown := continued.extends number
    refine ⟨grown.entries, fun entry member => ?_⟩
    apply Registry.get?_of_mem (grown.distinct (distinct number))
    rw [grown.entries]
    exact List.mem_append_left _ member
  · exact fun number operation failure opened failed => Session.leaves_perform opened failed

def sharedSession : Session := ⟨[⟨[⟨"a:M", .mk [] none⟩]⟩, .empty]⟩

def interfaceContract : Contract := ⟨"I", "a:I", .interface, [], [], [], [], [], [], .ofOffsets 0 9 "a"⟩

/-- In the first registry the name is registered again, in vain, and then another one; in the
second a contract that is none. -/
theorem registries_append_only_shared :
    ∃ after, Run .empty [⟨0, ⟨"a:M", .mk [] none⟩⟩] sharedSession
      ∧ Run sharedSession [⟨0, ⟨"a:N", .mk [] none⟩⟩] after
      ∧ (∀ number, (sharedSession.registry number).names.Nodup
        ∧ (sharedSession.registry number).entries
          = registered number [⟨0, ⟨"a:M", .mk [] none⟩⟩])
      ∧ (∀ number,
        (after.registry number).entries = (sharedSession.registry number).entries
          ++ registered number [⟨0, ⟨"a:N", .mk [] none⟩⟩]
        ∧ ∀ entry ∈ (sharedSession.registry number).entries,
          (after.registry number).get? entry.name = some entry.block)
      ∧ ∀ number operation failure, number < sharedSession.registries.length →
        (sharedSession.perform number operation).1.result = .error failure →
        sharedSession.Leaves number failure (sharedSession.perform number operation).2 operation := by
  have reached : Run .empty [⟨0, ⟨"a:M", .mk [] none⟩⟩] sharedSession :=
    (Run.start.opened.opened).performed 0 (.register "a:M" (.mk [] none)) (by decide)
  have begun : Run sharedSession [] sharedSession := .start
  have continued := ((begun.performed 0
    (.register "a:M" (.mk [.breakLoop none] none)) (by decide)).performed 0
    (.register "a:N" (.mk [] none)) (by decide)).performed 1
    (.lowerUnit ⟨"a", [interfaceContract]⟩) (by decide)
  exact ⟨_, reached, continued, registries_append_only reached continued⟩

end ContractAsm.Lowering

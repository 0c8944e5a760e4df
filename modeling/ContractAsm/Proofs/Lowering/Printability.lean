import ContractAsm.Lowering.Listing
import ContractAsm.Proofs.Dispatch.Distinctness

/-!
# Lowered contracts can be printed

A node of unknown kind has no text. Lowering makes none itself, and in a source unit that was
accepted it finds none. So whatever accepted contracts are lowered to can be printed.
-/

namespace ContractAsm

/-! ## Recognised lists -/

theorem Ir.areRecognised_of_forall {statements : List Ir.Statement}
    (each : ∀ statement ∈ statements, statement.isRecognised = true) :
    Ir.areRecognised statements = true := by
  induction statements with
  | nil => rfl
  | cons statement rest ih =>
    obtain ⟨here, others⟩ := List.forall_mem_cons.mp each
    rw [Ir.areRecognised, here, ih others]
    rfl

theorem Ir.areRecognisedCases_of_forall {cases : List Ir.Case}
    (each : ∀ case ∈ cases, case.isRecognised = true) : Ir.areRecognisedCases cases = true := by
  induction cases with
  | nil => rfl
  | cons case rest ih =>
    obtain ⟨here, others⟩ := List.forall_mem_cons.mp each
    rw [Ir.areRecognisedCases, here, ih others]
    rfl

namespace Lowering

open Source (Function Contract)

/-! ## What lowering adds -/

theorem callBody_isRecognised (function : Function) (name : Text) :
    (callBody function name).isRecognised = true := by
  unfold callBody
  cases function.isPayable with
  | true => rfl
  | false => rfl

theorem IsNoValueBody.isRecognised {body : Ir.Block} (h : IsNoValueBody body) : body.isRecognised = true := by
  cases h
  rfl

theorem IsSelectorBody.isRecognised {body : Ir.Block} (h : IsSelectorBody body) : body.isRecognised = true := by
  cases h
  rfl

theorem Helpers.isRecognised (helpers : Helpers) :
    ∀ statement ∈ helpers.statements, statement.isRecognised = true :=
  List.forall_mem_cons.mpr
    ⟨helpers.noValue.isRecognised, List.forall_mem_singleton.mpr helpers.selector.isRecognised⟩

theorem dispatcherSwitch_isRecognised (contract : Contract) :
    (dispatcherSwitch contract).isRecognised = true := by
  apply Ir.areRecognisedCases_of_forall
  intro case member
  rcases List.mem_append.mp member with called | last
  · obtain ⟨function, -, rfl⟩ := List.mem_map.mp called
    exact callBody_isRecognised function function.uniqueName
  · rw [List.mem_singleton.mp last]
    unfold otherwiseCase
    cases contract.fallback? with
    | some fallback => exact callBody_isRecognised fallback fallbackName
    | none => rfl

/-! ## What it finds -/

theorem leafStatement_isRecognised {leaf : Source.Statement} {statement : Ir.Statement}
    (recognised : leaf.Recognised) (becomes : leafStatement? leaf = some statement) :
    statement.isRecognised = true := by
  cases leaf with
  | throw location =>
    cases becomes
    rfl
  | inlineAssembly operations location =>
    cases becomes
    exact Asm.Block.Recognised.isRecognised recognised
  | block | other | unrecognised => contradiction

theorem definitionOf_isRecognised {function : Function} (recognised : function.Recognised) :
    (definitionOf function).isRecognised = true := by
  apply Ir.areRecognised_of_forall
  intro statement member
  obtain ⟨leaf, stands, becomes⟩ := List.mem_filterMap.mp member
  exact leafStatement_isRecognised (recognised.leaves stands) becomes

theorem loweredWith_isRecognised (helpers : Helpers) {contract : Contract} (recognised : contract.Recognised) :
    (loweredWith helpers contract).block.isRecognised = true := by
  apply Ir.areRecognised_of_forall
  intro statement member
  rcases List.mem_append.mp member with before | last
  · rcases List.mem_append.mp before with defined | helper
    · obtain ⟨function, declared, rfl⟩ := List.mem_map.mp defined
      exact definitionOf_isRecognised (recognised function declared)
    · exact helpers.isRecognised statement helper
  · rw [List.mem_singleton.mp last]
    exact dispatcherSwitch_isRecognised contract

/-! ## Listings -/

theorem exists_text? {contracts : List LoweredContract}
    (each : ∀ contract ∈ contracts, contract.block.isRecognised = true) :
    ∃ text, Listing.text? contracts = some text := by
  have sections : ∃ texts, contracts.mapM Listing.section? = some texts := by
    induction contracts with
    | nil => exact ⟨[], rfl⟩
    | cons contract rest ih =>
      obtain ⟨here, others⟩ := List.forall_mem_cons.mp each
      obtain ⟨texts, more⟩ := ih others
      have printed : contract.block.print? = some contract.block.render := if_pos here
      rw [List.mapM_cons, Listing.section?, printed, more]
      exact ⟨_, rfl⟩
  obtain ⟨texts, sections⟩ := sections
  rw [Listing.text?, sections]
  exact ⟨_, rfl⟩

theorem exists_text?_of_lowerContracts {registry : Registry} {contracts : List Contract}
    {results : List LoweredContract} (recognised : ∀ contract ∈ contracts, contract.Recognised)
    (done : (lowerContracts registry contracts).result = .ok results) :
    ∃ text, Listing.text? results = some text := by
  apply exists_text?
  have lowered := isLoweredTo_of_lowerContracts done
  clear done
  induction lowered with
  | nil => exact List.forall_mem_nil _
  | cons first _ ih =>
    obtain ⟨-, helpers, whole⟩ := first
    obtain ⟨here, others⟩ := List.forall_mem_cons.mp recognised
    rw [whole]
    exact List.forall_mem_cons.mpr ⟨loweredWith_isRecognised helpers here, ih others⟩

end Lowering

end ContractAsm

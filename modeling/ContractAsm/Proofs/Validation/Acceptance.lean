import ContractAsm.Proofs.Schema.Breaking
import ContractAsm.Proofs.Source.Recognition
import ContractAsm.Validation.Document

/-!
# Accepted source units

A source unit is accepted for what its schema keeps of it, and its tree has no findings then. The
tree of an accepted one is recognised throughout, and its contracts have different qualified names.
-/

namespace ContractAsm.Validation

open Schema
open Source (SourceUnit Contract Function)

/-! ## The two phases -/

theorem eq_valid_of_value? {α β : Type} {verdict : Verdict α} {part : α → β} {known : β}
    (value : verdict.value?.map part = some known) :
    ∃ whole, verdict = .valid (some whole) ∧ part whole = known := by
  obtain ⟨whole, found, same⟩ := Option.map_eq_some_iff.mp value
  refine ⟨whole, ?_, same⟩
  cases verdict with
  | valid => exact congrArg Verdict.valid found
  | invalid | failed => contradiction

section

variable {schema : Schema} {document : Json}

theorem checkAgainst_of_runs (runs : schema.breaks (some document) = false) :
    checkAgainst schema document = match (schema.examine (some document)).issues with
      | [] => .valid (schema.examine (some document)).value
      | issues => .invalid (issues.map fun issue =>
          ⟨Finding.pathText issue.path, issue.fault.message, none⟩) := by
  rw [checkAgainst, breaksOff_eq, runs, check_of_runs runs]
  rfl

/-- A validation has no result exactly if the check breaks off. -/
theorem checkAgainst_eq_failed_iff :
    checkAgainst schema document = .failed ↔ schema.breaks (some document) = true := by
  cases broken : schema.breaks (some document) with
  | true =>
    refine iff_of_true ?_ rfl
    rw [checkAgainst, breaksOff_eq, broken]
    rfl
  | false =>
    refine iff_of_false ?_ Bool.false_ne_true
    rw [checkAgainst_of_runs broken]
    split <;> exact nofun

theorem checkAgainst_accepted (accepted : (schema.check (some document)).issues = []) :
    ∃ declared, checkAgainst schema document = .valid (some declared)
      ∧ Keeps schema (some document) (some declared) := by
  have runs := runs_of_accepted accepted
  have keeps := check_keeps accepted
  rw [check_of_runs runs] at accepted keeps
  obtain ⟨declared, found⟩ := Option.isSome_iff_exists.mp (keeps.isSome rfl)
  refine ⟨declared, ?_, found ▸ keeps⟩
  rw [checkAgainst_of_runs runs, accepted, found]

theorem checkAgainst_of_keeps {kept : Json} (runs : schema.breaks (some document) = false)
    (keeps : Keeps schema (some document) (some kept)) (orderly : Orderly schema) :
    checkAgainst schema document = .valid (some kept) := by
  rw [checkAgainst_of_runs runs, keeps.examine_eq orderly]
  rfl

theorem checkAgainst_valid {result : Option Json} (valid : checkAgainst schema document = .valid result) :
    schema.breaks (some document) = false
      ∧ ∃ declared, result = some declared ∧ Keeps schema (some document) (some declared) := by
  have runs : schema.breaks (some document) = false := by
    refine Bool.eq_false_iff.mpr fun broken => ?_
    rw [checkAgainst_eq_failed_iff.mpr broken] at valid
    contradiction
  refine ⟨runs, ?_⟩
  have accepted : (schema.check (some document)).issues = [] := by
    rw [check_of_runs runs]
    rw [checkAgainst_of_runs runs] at valid
    split at valid
    · assumption
    · contradiction
  obtain ⟨declared, checked, keeps⟩ := checkAgainst_accepted accepted
  rw [checked] at valid
  cases valid
  exact ⟨declared, rfl, keeps⟩

/-- A source unit is accepted for what the schema keeps of it and the tree that is read from that. -/
theorem keeps_of_sourceUnit {result : Option ValidSourceUnit} (accepted : sourceUnit document = .valid result) :
    DocumentType.sourceUnit.schema.breaks (some document) = false ∧ ∃ source, result = some source
      ∧ Keeps DocumentType.sourceUnit.schema (some document) (some source.document)
      ∧ SourceUnit.ofJson? source.document = some source.tree ∧ sourceUnitFindings source.tree = [] := by
  unfold sourceUnit at accepted
  cases checked : checkAgainst DocumentType.sourceUnit.schema document with
  | failed | invalid =>
    rw [checked] at accepted
    contradiction
  | valid kept =>
    obtain ⟨runs, declared, rfl, keeps⟩ := checkAgainst_valid checked
    simp only [checked] at accepted
    split at accepted
    · contradiction
    · rename_i tree read
      split at accepted
      · rename_i clean
        cases accepted
        exact ⟨runs, _, rfl, keeps, read, clean⟩
      · contradiction

/-- What is accepted has a tree without unknown nodes and without findings. -/
theorem sourceUnit_valid {result : Option ValidSourceUnit} (accepted : sourceUnit document = .valid result) :
    ∃ source, result = some source ∧ SourceUnit.ofJson? source.document = some source.tree
      ∧ source.tree.Recognised ∧ sourceUnitFindings source.tree = [] := by
  obtain ⟨-, source, same, keeps, read, clean⟩ := keeps_of_sourceUnit accepted
  obtain ⟨tree, known, recognised⟩ := Source.decodes_sourceUnit ⟨_, keeps⟩
  cases read.symm.trans known
  exact ⟨source, same, read, recognised, clean⟩

end

theorem fits_of_sourceUnit {document : Json} {source : ValidSourceUnit}
    (accepted : sourceUnit document = .valid (some source)) :
    Fits DocumentType.sourceUnit.schema (some source.document)
      ∧ SourceUnit.ofJson? source.document = some source.tree := by
  obtain ⟨-, _, ⟨⟩, keeps, read, -⟩ := keeps_of_sourceUnit accepted
  exact ⟨⟨_, keeps⟩, read⟩

/-! ## Qualified names -/

theorem findings_combine {α : Type} (results : List (Result α)) :
    (Result.combine results).findings = results.flatMap Result.findings := by
  unfold Result.combine
  split
  · rename_i clean
    exact clean.symm
  · rfl

theorem qualifiedName_unseen {path seen : List Text} {contract : Contract}
    (clean : contractFindings path seen contract = []) : contract.qualifiedName ∉ seen := by
  intro repeated
  have known := List.contains_iff_mem.mpr repeated
  rw [contractFindings, if_pos known] at clean
  contradiction

theorem findings_of_result {contract : Contract} {findings : List Finding}
    (clean : Result.findings (match findings with
      | [] => .valid (some contract)
      | findings => .invalid findings) = []) : findings = [] := by
  cases findings with
  | nil => rfl
  | cons => contradiction

/-- Contracts without findings have different names, none of which was seen before. -/
theorem distinct_of_contractResults {index : Nat} {seen : List Text} {contracts : List Contract}
    (clean : (contractResults index seen contracts).flatMap Result.findings = []) :
    (contracts.map Contract.qualifiedName).Nodup
      ∧ ∀ contract ∈ contracts, contract.qualifiedName ∉ seen := by
  induction contracts generalizing index seen with
  | nil => exact ⟨List.nodup_nil, nofun⟩
  | cons contract rest ih =>
    rw [contractResults, List.flatMap_cons, List.append_eq_nil_iff] at clean
    obtain ⟨first, others⟩ := clean
    obtain ⟨distinct, unseen⟩ := ih others
    have own := findings_of_result first
    constructor
    · rw [List.map_cons, List.nodup_cons]
      refine ⟨fun repeated => ?_, distinct⟩
      obtain ⟨other, mem, same⟩ := List.mem_map.mp repeated
      exact unseen other mem (same ▸ List.mem_cons_self)
    · intro other mem
      rcases List.mem_cons.mp mem with rfl | later
      · exact qualifiedName_unseen own
      · exact fun known => unseen other later (List.mem_cons_of_mem _ known)

theorem distinct_of_sourceUnitFindings {source : SourceUnit} (clean : sourceUnitFindings source = []) :
    (source.contracts.map Contract.qualifiedName).Nodup := by
  rw [sourceUnitFindings, findings_combine] at clean
  exact (distinct_of_contractResults clean).1

/-! ## Fallback functions -/

def SingleFallback (functions : List Function) : Prop :=
  functions.Pairwise fun first second => ¬(first.isFallback = true ∧ second.isFallback = true)

theorem not_fallback_of_namingFindings {path : List Text} {function : Function}
    (clean : namingFindings path function true = []) : ¬ function.isFallback = true := by
  intro fallback
  have kind : function.kind = .fallback := of_decide_eq_true fallback
  rw [namingFindings, kind] at clean
  have repeated := (List.append_eq_nil_iff.mp clean).2
  contradiction

/-- Functions without findings have one fallback at most, and none if there was one before. -/
theorem singleFallback_of_functionsFindings {path : List Text} {index : Nat} {before : Bool}
    {functions : List Function} (clean : functionsFindings path index before functions = []) :
    SingleFallback functions ∧ (before = true → ∀ function ∈ functions, ¬ function.isFallback = true) := by
  induction functions generalizing index before with
  | nil => exact ⟨.nil, fun _ _ member => absurd member List.not_mem_nil⟩
  | cons function rest ih =>
    rw [functionsFindings, functionFindings, List.append_eq_nil_iff, List.append_eq_nil_iff,
      List.append_eq_nil_iff] at clean
    obtain ⟨⟨⟨-, naming⟩, -⟩, others⟩ := clean
    obtain ⟨single, unique⟩ := ih others
    constructor
    · refine List.Pairwise.cons (fun other member both => ?_) single
      have after : (before || function.isFallback) = true := by rw [both.1, Bool.or_true]
      exact unique after other member both.2
    · intro preceded other member
      rw [preceded] at naming unique
      rcases List.mem_cons.mp member with same | later
      · rw [same]
        exact not_fallback_of_namingFindings naming
      · exact unique rfl other later

theorem singleFallback_of_contractFindings {path seen : List Text} {contract : Contract}
    (clean : contractFindings path seen contract = []) : SingleFallback contract.functions := by
  rw [contractFindings, List.append_eq_nil_iff] at clean
  exact (singleFallback_of_functionsFindings clean.2).1

theorem singleFallback_of_contractResults {index : Nat} {seen : List Text} {contracts : List Contract}
    (clean : (contractResults index seen contracts).flatMap Result.findings = []) :
    ∀ contract ∈ contracts, SingleFallback contract.functions := by
  induction contracts generalizing index seen with
  | nil => exact nofun
  | cons contract rest ih =>
    rw [contractResults, List.flatMap_cons, List.append_eq_nil_iff] at clean
    intro other member
    rcases List.mem_cons.mp member with rfl | later
    · exact singleFallback_of_contractFindings (findings_of_result clean.1)
    · exact ih clean.2 other later

theorem singleFallback_of_sourceUnitFindings {source : SourceUnit} (clean : sourceUnitFindings source = []) :
    ∀ contract ∈ source.contracts, SingleFallback contract.functions := by
  rw [sourceUnitFindings, findings_combine] at clean
  exact singleFallback_of_contractResults clean

end ContractAsm.Validation

import ContractAsm.Schema.Check
import Mathlib.Data.List.Forall2

/-!
# Outcomes up to some issues

Two outcomes are compared by the issues that count. The others may differ, as long as they do not
decide whether a value is accepted or which option of a union is taken: so there have to be issues in
both outcomes or in none of them, and hard ones in both or in none.
-/

namespace ContractAsm.Schema

/-- The issues that count are the same, and the others decide nothing. -/
structure SameIssues (counts : Fault → Bool) (issues others : List Issue) : Prop where
  counted : others.filter (counts ·.fault) = issues.filter (counts ·.fault)
  none_iff : others = [] ↔ issues = []
  isSoft_eq : others.all (·.fault.isSoft) = issues.all (·.fault.isSoft)

/-- The values are the same, and so are the issues that count. -/
structure SameOutcome (counts : Fault → Bool) (outcome other : Outcome) : Prop where
  value : other.value = outcome.value
  issues : SameIssues counts outcome.issues other.issues

variable {counts : Fault → Bool}

theorem SameIssues.refl (issues : List Issue) : SameIssues counts issues issues := ⟨rfl, Iff.rfl, rfl⟩

theorem SameOutcome.refl (outcome : Outcome) : SameOutcome counts outcome outcome := ⟨rfl, .refl _⟩

theorem SameOutcome.eq_of_all {outcome other : Outcome} (same : SameOutcome (fun _ => true) outcome other) :
    other = outcome := by
  obtain ⟨value, issues, -, -⟩ := same
  rw [List.filter_true, List.filter_true] at issues
  exact congrArg₂ Outcome.mk value issues

/-- An accepted outcome is the same as itself alone. -/
theorem SameOutcome.eq_of_accepted {outcome other : Outcome} (same : SameOutcome counts outcome other)
    (accepted : outcome.issues = []) : other = outcome := by
  have none := same.issues.none_iff.mpr accepted
  exact congrArg₂ Outcome.mk same.value (none.trans accepted.symm)

/-! ## Lists of issues -/

theorem SameIssues.append {issues others more rest : List Issue} (first : SameIssues counts issues others)
    (second : SameIssues counts more rest) : SameIssues counts (issues ++ more) (others ++ rest) where
  counted := by rw [List.filter_append, List.filter_append, first.counted, second.counted]
  none_iff := by rw [List.append_eq_nil_iff, List.append_eq_nil_iff, first.none_iff, second.none_iff]
  isSoft_eq := by rw [List.all_append, List.all_append, first.isSoft_eq, second.isSoft_eq]

theorem SameIssues.under {issues others : List Issue} (same : SameIssues counts issues others) (key : Text) :
    SameIssues counts (issues.map (Issue.under key)) (others.map (Issue.under key)) where
  counted := by
    have inside := congrArg (List.map (Issue.under key)) same.counted
    rw [List.filter_map, List.filter_map]
    exact inside
  none_iff := by rw [List.map_eq_nil_iff, List.map_eq_nil_iff, same.none_iff]
  isSoft_eq := by
    rw [List.all_map, List.all_map]
    exact same.isSoft_eq

theorem SameOutcome.reject {fault : Fault} {faults more : List Fault} (hard : fault.isSoft = false)
    (same : more.filter counts = faults.filter counts) :
    SameOutcome counts (.reject (fault :: faults)) (.reject (fault :: more)) := by
  have counted : (more.map fun fault => (⟨[], fault⟩ : Issue)).filter (counts ·.fault)
      = (faults.map fun fault => (⟨[], fault⟩ : Issue)).filter (counts ·.fault) := by
    rw [List.filter_map, List.filter_map]
    exact congrArg (List.map _) same
  refine ⟨rfl, ?_, iff_of_false (List.cons_ne_nil _ _) (List.cons_ne_nil _ _), ?_⟩
  · simp only [Outcome.reject, List.map_cons, List.filter_cons, counted]
  · simp [Outcome.reject, hard]

/-! ## Unions -/

theorem SameOutcome.isAccepted_eq {outcome other : Outcome} (same : SameOutcome counts outcome other) :
    other.isAccepted = outcome.isAccepted := by
  rw [Bool.eq_iff_iff, Outcome.isAccepted, Outcome.isAccepted, List.isEmpty_iff, List.isEmpty_iff,
    same.issues.none_iff]

theorem SameOutcome.choose {outcomes others : List Outcome}
    (each : List.Forall₂ (SameOutcome counts) outcomes others) :
    SameOutcome counts (choose outcomes) (choose others) := by
  have accepted : List.Forall₂ (SameOutcome counts) (outcomes.filter Outcome.isAccepted)
      (others.filter Outcome.isAccepted) :=
    List.rel_filter (fun _ _ same => by simp [same.isAccepted_eq]) each
  have soft : List.Forall₂ (SameOutcome counts) (outcomes.filter Outcome.isSoft) (others.filter Outcome.isSoft) :=
    List.rel_filter (fun _ _ same => by simp [Outcome.isSoft, same.issues.isSoft_eq]) each
  unfold Schema.choose
  rw [← List.head?_filter, ← List.head?_filter]
  generalize outcomes.filter Outcome.isAccepted = taken, others.filter Outcome.isAccepted = also at accepted ⊢
  generalize outcomes.filter Outcome.isSoft = spared, others.filter Outcome.isSoft = besides at soft ⊢
  cases accepted with
  | cons first _ => exact first
  | nil =>
    cases soft with
    | nil => exact .refl _
    | cons first rest =>
      cases rest with
      | nil => exact first
      | cons => exact .refl _

end ContractAsm.Schema

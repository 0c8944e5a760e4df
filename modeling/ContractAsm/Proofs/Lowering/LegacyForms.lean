import ContractAsm.Lowering.Function
import ContractAsm.Proofs.Asm.PrintOrder

/-!
# Where legacy forms are found

A block is refused exactly if a legacy form stands in it, however deep, and what is reported is
the one that is printed first.
-/

namespace ContractAsm

open Asm (Block LegacyForm Statement StartInTurn)

namespace Asm

/-- No statement in the block is of an unknown kind; the expressions in the statements may be. -/
def Block.KindsKnown (block : Block) : Prop :=
  ∀ statement, block.Has statement → statement.ownObstacle? ≠ some .unrecognised

theorem Statement.isLegacy_eq_false {statement : Statement} (clear : statement.ownObstacle? = none) :
    statement.isLegacy = false := by
  cases statement with
  | legacy => contradiction
  | _ => rfl

theorem Statement.eq_legacy_of_obstacle {statement : Statement} {obstacle : Obstacle}
    (own : statement.ownObstacle? = some obstacle) (known : statement.ownObstacle? ≠ some .unrecognised) :
    ∃ form operand location, statement = .legacy form operand location ∧ obstacle = .legacy form location := by
  cases statement with
  | legacy form operand location =>
    cases own
    exact ⟨form, operand, location, rfl, rfl⟩
  | unrecognised => exact absurd rfl known
  | expression expression =>
    cases expression with
    | unrecognised => exact absurd rfl known
    | _ => contradiction
  | _ => contradiction

/-- What the search finds is the first legacy form in the list of the statements. -/
theorem Block.obstacle?_eq_some_iff {block : Block} {obstacle : Obstacle} :
    block.obstacle? = some obstacle ↔ ∃ before statement after,
      block.within = before ++ statement :: after ∧ statement.ownObstacle? = some obstacle ∧
        ∀ earlier ∈ before, earlier.ownObstacle? = none := by
  rw [Block.obstacle?_eq_head?, Block.obstacles, List.head?_filterMap]
  exact List.findSome?_eq_some_iff

end Asm

namespace Lowering

def legacyReport (form : LegacyForm) (location : Location) : Error :=
  .unsupported .legacyAssembly ("Inline assembly " ++ form.plural ++ " are not supported yet.") (some location)

theorem refuseLegacy_ok {operations : Block} {fallback : Location}
    (clear : operations.obstacle? = none) : refuseLegacy operations fallback = .ok () := by
  rw [refuseLegacy, clear]

theorem refuseLegacy_legacy {operations : Block} {fallback : Location} {form : LegacyForm}
    {location : Option Location} (found : operations.obstacle? = some (.legacy form location)) :
    refuseLegacy operations fallback =
      .error (.unsupported (.legacyAssembly form) (location.getD fallback)) := by
  rw [refuseLegacy, found]

theorem refuseLegacy_cases (operations : Block) (fallback : Location) (known : operations.KindsKnown) :
    (refuseLegacy operations fallback = .ok () ∧
        ∀ statement, operations.Has statement → statement.isLegacy = false) ∨
      ∃ before form operand location after,
        operations.within = before ++ .legacy form operand location :: after ∧
        (∀ earlier ∈ before, earlier.isLegacy = false) ∧
        refuseLegacy operations fallback =
          .error (.unsupported (.legacyAssembly form) (location.getD fallback)) := by
  cases found : operations.obstacle? with
  | none =>
    refine .inl ⟨refuseLegacy_ok found, fun statement has => ?_⟩
    rw [Block.obstacle?_eq_head?, List.head?_eq_none_iff, Block.obstacles, List.filterMap_eq_nil_iff] at found
    exact Statement.isLegacy_eq_false (found statement (Block.mem_within_iff.mpr has))
  | some obstacle =>
    obtain ⟨before, statement, after, split, own, earlier⟩ := Block.obstacle?_eq_some_iff.mp found
    have has : operations.Has statement :=
      Block.mem_within_iff.mp (split ▸ List.mem_append_right before List.mem_cons_self)
    obtain ⟨form, operand, location, rfl, rfl⟩ := Statement.eq_legacy_of_obstacle own (known statement has)
    exact .inr ⟨before, form, operand, location, after, split,
      fun statement member => Statement.isLegacy_eq_false (earlier statement member), refuseLegacy_legacy found⟩

/-- A block is refused exactly if a label, a stack assignment or a bare instruction stands in it,
however deep. What is reported is then the first one in the order in which the statements are
printed, at its own place or else at the given one. -/
theorem refuseLegacy_reports_first_printed (operations : Block) (fallback : Location)
    (known : operations.KindsKnown) :
    ((∃ failure, refuseLegacy operations fallback = .error failure) ↔
      ∃ form operand location, operations.Has (.legacy form operand location)) ∧
    (∀ failure, refuseLegacy operations fallback = .error failure →
      ∃ before form operand location after,
        operations.within = before ++ .legacy form operand location :: after ∧
        (∀ earlier ∈ before, earlier.isLegacy = false) ∧
        failure.error? = some (legacyReport form (location.getD fallback))) ∧
    StartInTurn operations.render.units operations.within ∧
    ∀ statement, statement ∈ operations.within ↔ operations.Has statement := by
  refine ⟨⟨fun ⟨failure, refused⟩ => ?_, fun ⟨form, operand, location, has⟩ => ?_⟩, fun failure refused => ?_,
    operations.startInTurn_render, fun _ => Block.mem_within_iff⟩
  · obtain ⟨accepted, -⟩ | ⟨before, form, operand, location, after, split, -⟩ :=
      refuseLegacy_cases operations fallback known
    · rw [accepted] at refused
      contradiction
    · have member := split ▸ List.mem_append_right before List.mem_cons_self
      exact ⟨form, operand, location, Block.mem_within_iff.mp member⟩
  · obtain ⟨-, clear⟩ | ⟨_, _, _, _, _, _, _, refused⟩ := refuseLegacy_cases operations fallback known
    · exact absurd (clear _ has) Bool.noConfusion
    · exact ⟨_, refused⟩
  · obtain ⟨accepted, -⟩ | ⟨before, form, operand, location, after, split, earlier, reported⟩ :=
      refuseLegacy_cases operations fallback known
    · rw [accepted] at refused
      contradiction
    · rw [reported] at refused
      cases refused
      exact ⟨before, form, operand, location, after, split, earlier, rfl⟩

/-- A bare instruction in the advance of a loop in the default of a switch. -/
def hiddenInstruction : Block :=
  .mk
    [.expression (.identifier "x" none),
      .switch (.identifier "x" none)
        [.mk none
          (.mk
            [.forLoop (.mk [] none) (.identifier "x" none) (.mk [.legacy .instruction "dup1" none] none)
              (.mk [.legacy .label "end" none] none) none]
            none)]
        none]
    none

theorem refuseLegacy_hiddenInstruction :
    hiddenInstruction.KindsKnown ∧
      ∃ failure, refuseLegacy hiddenInstruction (.ofOffsets 3 9 "token") = .error failure := by
  have known : hiddenInstruction.KindsKnown := by
    have listed : ∀ statement ∈ hiddenInstruction.within, statement.ownObstacle? ≠ some .unrecognised := by
      decide
    exact fun statement has => listed statement (Block.mem_within_iff.mpr has)
  have has : hiddenInstruction.Has (.legacy .instruction "dup1" none) :=
    .inside (List.mem_cons_of_mem _ List.mem_cons_self) (.caseBody List.mem_cons_self)
      (.inside List.mem_cons_self (.forPost _) (.here List.mem_cons_self))
  exact ⟨known, (refuseLegacy_reports_first_printed hiddenInstruction _ known).1.mpr ⟨_, _, _, has⟩⟩

end Lowering

end ContractAsm

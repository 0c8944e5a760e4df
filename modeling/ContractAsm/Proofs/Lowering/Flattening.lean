import ContractAsm.Proofs.Lowering.Violations
import Mathlib.Data.List.Forall2

/-!
# Bodies are flattened

A function that is lowered keeps the leaves of its body and their order: every throw and every
piece of assembly has one statement, and nothing else has. How the leaves are grouped into
blocks leaves no trace. So bodies that follow each other are lowered one after the other, and
a block around any run of statements, however deep, makes no difference to the run of the
compiler at all.
-/

namespace ContractAsm.Source

def Function.withBody (function : Function) (body : Block) : Function := { function with body := some body }

/-- In the second list a block stands around a run of statements of the first one, at any depth. -/
inductive Wraps : List Statement → List Statement → Prop where
  | here (before run after : List Statement) (location : Location) :
      Wraps (before ++ run ++ after) (before ++ [.block run location] ++ after)
  | inside (before after : List Statement) (location : Location) {inner wrapped : List Statement}
      (wraps : Wraps inner wrapped) :
      Wraps (before ++ [.block inner location] ++ after) (before ++ [.block wrapped location] ++ after)

end ContractAsm.Source

namespace ContractAsm.Lowering

open Source (Function Wraps)

/-! ## Leaves -/

/-- What a leaf becomes. A throw gives up without return data, and assembly stays as it is;
both keep their place. -/
inductive Becomes : Source.Statement → Ir.Statement → Prop where
  | thrown (location : Location) :
      Becomes (.throw location) (.expression (.functionCall "revert"
        [.literal ⟨.number, "0", some "u256", none⟩, .literal ⟨.number, "0", some "u256", none⟩]
        (some location)))
  | carried (operations : Asm.Block) (location : Location) :
      Becomes (.inlineAssembly operations location) (.inlineAssembly operations (some location))

theorem becomes_of_clean {leaf : Source.Statement} (noBlock : ∀ inner location, leaf ≠ .block inner location)
    (clean : leafViolations leaf = []) :
    ∃ statement, leafStatement? leaf = some statement ∧ Becomes leaf statement := by
  cases leaf with
  | throw location => exact ⟨_, rfl, .thrown location⟩
  | inlineAssembly operations location => exact ⟨_, rfl, .carried operations location⟩
  | block inner location => exact absurd rfl (noBlock inner location)
  | other | unrecognised => contradiction

theorem forall₂_becomes {leaves : List Source.Statement}
    (noBlock : ∀ inner location, .block inner location ∉ leaves)
    (clean : leaves.flatMap leafViolations = []) :
    List.Forall₂ Becomes leaves (leaves.filterMap leafStatement?) := by
  induction leaves with
  | nil => exact .nil
  | cons leaf rest ih =>
    rw [List.flatMap_cons, List.append_eq_nil_iff] at clean
    have here : ∀ inner location, leaf ≠ .block inner location := by
      intro inner location same
      exact noBlock inner location (same ▸ List.mem_cons_self)
    have behind : ∀ inner location, .block inner location ∉ rest := by
      intro inner location member
      exact noBlock inner location (List.mem_cons_of_mem _ member)
    obtain ⟨statement, found, becomes⟩ := becomes_of_clean here clean.1
    rw [List.filterMap_cons_some found]
    exact .cons becomes (ih behind clean.2)

/-! ## Runs of statements -/

theorem lowerStatements_append (draft : FunctionDraft) (first second : List Source.Statement) :
    lowerStatements draft (first ++ second)
      = lowerStatements draft first >>= fun between => lowerStatements between second := by
  induction first generalizing draft with
  | nil => rfl
  | cons statement rest ih =>
    rw [List.cons_append, lowerStatements, lowerStatements, bind_assoc]
    exact congrArg _ (funext ih)

theorem lowerStatements_block (draft : FunctionDraft) (inner : List Source.Statement) (location : Location) :
    lowerStatements draft [.block inner location] = lowerStatements draft inner := by
  rw [lowerStatements, lowerStatement]
  exact bind_pure (lowerStatements draft inner)

/-- The same statements go into a draft whether a run of them stands in a block or not. -/
theorem lowerStatements_wraps {plain wrapped : List Source.Statement} (wraps : Wraps plain wrapped)
    (draft : FunctionDraft) : lowerStatements draft wrapped = lowerStatements draft plain := by
  induction wraps generalizing draft with
  | here before run after location =>
    simp only [lowerStatements_append, lowerStatements_block]
  | inside before after location _ ih =>
    simp only [lowerStatements_append, lowerStatements_block, ih]

/-! ## Bodies -/

def definitionWith (function : Function) (statements : List Ir.Statement) : Ir.Statement :=
  .functionDefinition function.uniqueName [] [] (.mk statements none) (some function.location)

theorem Reports.eq_ok_iff {α : Type} {value other : α} {violated : List Failure} {result : Except Failure α}
    (reports : Reports (· = value) violated result) :
    result = .ok other ↔ violated = [] ∧ other = value := by
  constructor
  · exact reports.held
  · rintro ⟨clean, rfl⟩
    obtain ⟨found, done⟩ := reports.ok_iff.mpr clean
    rw [done, (reports.held done).2]

theorem lowerFunction_eq_ok_iff {function : Function} {definition : Ir.Statement} :
    (lowerFunction function).result = .ok definition
      ↔ functionViolations function = [] ∧ definition = definitionOf function :=
  (reports_function function).eq_ok_iff

theorem admitFunction_withBody (function : Function) (first second : Source.Block) :
    (∃ failure, admitFunction (function.withBody first) = .error failure
        ∧ admitFunction (function.withBody second) = .error failure)
      ∨ (admitFunction (function.withBody first) = .ok first
        ∧ admitFunction (function.withBody second) = .ok second) := by
  have one := reports_admitFunction (function.withBody first)
  have two := reports_admitFunction (function.withBody second)
  have violated : headViolations (function.withBody second) = headViolations (function.withBody first) := rfl
  rw [violated] at two
  generalize headViolations (function.withBody first) = violations at one two
  generalize admitFunction (function.withBody first) = here at one
  generalize admitFunction (function.withBody second) = there at two
  cases one with
  | refused failure =>
    cases two with
    | refused => exact .inl ⟨failure, rfl, rfl⟩
  | ok taken =>
    cases two with
    | ok other =>
      exact .inr ⟨congrArg _ (Option.some.inj taken).symm, congrArg _ (Option.some.inj other).symm⟩

/-- Only the statements of a body count, and only for what a draft takes of them. -/
theorem lowerFunction_congr (function : Function) {first second : Source.Block}
    (same : ∀ draft, lowerStatements draft first.statements = lowerStatements draft second.statements) :
    lowerFunction (function.withBody first) = lowerFunction (function.withBody second) := by
  unfold lowerFunction
  obtain ⟨failure, here, there⟩ | ⟨here, there⟩ := admitFunction_withBody function first second
  · rw [here, there]
    rfl
  · rw [here, there]
    show Traced.bind _ _ = Traced.bind _ _
    simp only [Traced.bind, Traced.ofExcept, same]
    rfl

theorem lowerFunction_withBody_iff {function : Function} {body : Source.Block} {definition : Ir.Statement} :
    (lowerFunction (function.withBody body)).result = .ok definition
      ↔ (headViolations (function.withBody body) = []
          ∧ (Source.leavesOf body.statements).flatMap leafViolations = [])
        ∧ definition
          = definitionWith function ((Source.leavesOf body.statements).filterMap leafStatement?) := by
  rw [lowerFunction_eq_ok_iff, functionViolations, List.append_eq_nil_iff]
  rfl

theorem statements_of_definitionWith {function : Function} {first second : List Ir.Statement}
    (same : definitionWith function first = definitionWith function second) : first = second := by
  simpa [definitionWith] using same

/-- A body is lowered if and only if its two halves are, and then to their statements in a row. -/
theorem lowerFunction_append {function : Function} {first second both : Source.Block}
    (joined : both.statements = first.statements ++ second.statements) (definition : Ir.Statement) :
    (lowerFunction (function.withBody both)).result = .ok definition
      ↔ ∃ before behind,
        (lowerFunction (function.withBody first)).result = .ok (definitionWith function before)
        ∧ (lowerFunction (function.withBody second)).result = .ok (definitionWith function behind)
        ∧ definition = definitionWith function (before ++ behind) := by
  have head (body : Source.Block) :
      headViolations (function.withBody body) = headViolations (function.withBody both) := rfl
  simp only [lowerFunction_withBody_iff, head first, head second, joined, Source.leavesOf_append,
    List.flatMap_append, List.filterMap_append, List.append_eq_nil_iff]
  constructor
  · rintro ⟨⟨admitted, left, right⟩, rfl⟩
    exact ⟨_, _, ⟨⟨admitted, left⟩, rfl⟩, ⟨⟨admitted, right⟩, rfl⟩, rfl⟩
  · rintro ⟨before, behind, ⟨⟨admitted, left⟩, first⟩, ⟨⟨-, right⟩, second⟩, rfl⟩
    rw [statements_of_definitionWith first, statements_of_definitionWith second]
    exact ⟨⟨admitted, left, right⟩, rfl⟩

/-- The body of a lowered function is the sequence of what the leaves of its source become.
Bodies in a row are lowered one after the other, and whether a run of statements stands in a
block of its own makes no difference. -/
theorem lowerFunction_flattens (function : Function) :
    (∀ definition, (lowerFunction function).result = .ok definition →
        ∃ body statements, function.body = some body
          ∧ List.Forall₂ Becomes (Source.leavesOf body.statements) statements
          ∧ definition = definitionWith function statements)
      ∧ (∀ first second both : Source.Block, both.statements = first.statements ++ second.statements →
        ∀ definition, (lowerFunction (function.withBody both)).result = .ok definition
          ↔ ∃ before behind,
            (lowerFunction (function.withBody first)).result = .ok (definitionWith function before)
            ∧ (lowerFunction (function.withBody second)).result = .ok (definitionWith function behind)
            ∧ definition = definitionWith function (before ++ behind))
      ∧ ∀ plain wrapped : Source.Block, Wraps plain.statements wrapped.statements →
        lowerFunction (function.withBody wrapped) = lowerFunction (function.withBody plain) := by
  refine ⟨fun definition done => ?_, fun _ _ _ => lowerFunction_append, fun plain wrapped wraps => ?_⟩
  · obtain ⟨clean, rfl⟩ := lowerFunction_eq_ok_iff.mp done
    obtain ⟨admitted, clean⟩ := List.append_eq_nil_iff.mp clean
    have reports := reports_admitFunction function
    rw [admitted] at reports
    obtain ⟨body, taken⟩ := reports.ok_iff.mpr rfl
    have found := (reports.held taken).2
    rw [Source.Function.leaves_eq found] at clean
    refine ⟨body, _, found, forall₂_becomes (Source.block_notMem_leavesOf body.statements) clean, ?_⟩
    rw [definitionOf, definitionWith, Source.Function.leaves_eq found]
  · exact lowerFunction_congr function (lowerStatements_wraps wraps)

def nestedBody : Source.Block :=
  let place : Location := .ofOffsets 0 9 "t"
  ⟨[.block [.throw place, .block [] place] place, .inlineAssembly (.mk [] none) place], place⟩

def nestedFunction : Function :=
  ⟨"f", .ordinary, .outside, .payable, true, [], [], [], some nestedBody, .ofOffsets 0 9 "t"⟩

theorem lowerFunction_flattens_nested :
    let place : Location := .ofOffsets 0 9 "t"
    (∃ statements, (lowerFunction nestedFunction).result = .ok (definitionWith nestedFunction statements)
        ∧ List.Forall₂ Becomes [.throw place, .inlineAssembly (.mk [] none) place] statements)
      ∧ (∃ before behind,
        (lowerFunction (nestedFunction.withBody ⟨nestedBody.statements.take 1, place⟩)).result
            = .ok (definitionWith nestedFunction before)
          ∧ (lowerFunction (nestedFunction.withBody ⟨nestedBody.statements.drop 1, place⟩)).result
            = .ok (definitionWith nestedFunction behind)
          ∧ (lowerFunction nestedFunction).result
            = .ok (definitionWith nestedFunction (before ++ behind)))
      ∧ lowerFunction nestedFunction = lowerFunction (nestedFunction.withBody
        ⟨[.throw place, .block [] place, .inlineAssembly (.mk [] none) place], place⟩) := by
  intro place
  have accepted : (lowerFunction nestedFunction).result = .ok (definitionOf nestedFunction) :=
    lowerFunction_eq_ok_iff.mpr ⟨rfl, rfl⟩
  obtain ⟨lowered, joined, wrapped⟩ := lowerFunction_flattens nestedFunction
  obtain ⟨_, statements, ⟨⟩, becomes, same⟩ := lowered _ accepted
  obtain ⟨before, behind, first, second, row⟩ :=
    (joined ⟨nestedBody.statements.take 1, place⟩ ⟨nestedBody.statements.drop 1, place⟩ nestedBody rfl
      _).mp accepted
  refine ⟨⟨statements, same ▸ accepted, becomes⟩, ⟨before, behind, first, second, row ▸ accepted⟩, ?_⟩
  exact wrapped ⟨_, place⟩ nestedBody
    (.here [] [.throw place, .block [] place] [.inlineAssembly (.mk [] none) place] place)

end ContractAsm.Lowering

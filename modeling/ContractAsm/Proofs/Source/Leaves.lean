import ContractAsm.Proofs.Source.Recognition

/-!
# The leaves of a body

Blocks in the body of a function have no meaning of their own: what counts is the sequence
of the statements that are no blocks, in the order in which they stand.
-/

namespace ContractAsm.Source

mutual

/-- A statement that is no block, or what stands in the block, however deep. -/
def Statement.leaves : Statement → List Statement
  | .block statements _ => leavesOf statements
  | .throw location => [.throw location]
  | .inlineAssembly operations location => [.inlineAssembly operations location]
  | .other kind location => [.other kind location]
  | .unrecognised node => [.unrecognised node]

def leavesOf : List Statement → List Statement
  | [] => []
  | statement :: rest => statement.leaves ++ leavesOf rest

end

theorem leavesOf_append (first second : List Statement) :
    leavesOf (first ++ second) = leavesOf first ++ leavesOf second := by
  induction first with
  | nil => rfl
  | cons statement rest ih => rw [List.cons_append, leavesOf, leavesOf, ih, List.append_assoc]

mutual

theorem Statement.block_notMem_leaves (statement : Statement) (inner : List Statement)
    (location : Location) : .block inner location ∉ statement.leaves := by
  cases statement with
  | block statements => exact block_notMem_leavesOf statements inner location
  | throw | inlineAssembly | other | unrecognised =>
    intro member
    exact absurd (List.mem_singleton.mp member) Statement.noConfusion

theorem block_notMem_leavesOf (statements : List Statement) (inner : List Statement)
    (location : Location) : .block inner location ∉ leavesOf statements := by
  cases statements with
  | nil => exact List.not_mem_nil
  | cons statement rest =>
    intro member
    rcases List.mem_append.mp member with first | others
    · exact statement.block_notMem_leaves inner location first
    · exact block_notMem_leavesOf rest inner location others

end

def Function.leaves (function : Function) : List Statement :=
  match function.body with
  | some body => leavesOf body.statements
  | none => []

theorem Function.leaves_eq {function : Function} {body : Block} (found : function.body = some body) :
    function.leaves = leavesOf body.statements := by
  rw [Function.leaves, found]

theorem Function.mem_leaves {function : Function} {leaf : Statement} :
    leaf ∈ function.leaves ↔ ∃ body, function.body = some body ∧ leaf ∈ leavesOf body.statements := by
  rw [Function.leaves]
  cases function.body with
  | none => exact ⟨nofun, nofun⟩
  | some body => exact ⟨fun member => ⟨body, rfl, member⟩, fun ⟨_, same, member⟩ => Option.some.inj same ▸ member⟩

mutual

theorem Statement.Recognised.leaves {statement leaf : Statement} (recognised : statement.Recognised)
    (member : leaf ∈ statement.leaves) : leaf.Recognised := by
  cases statement with
  | block statements => exact statementsRecognised_leaves recognised member
  | unrecognised => contradiction
  | throw | inlineAssembly | other =>
    rw [List.mem_singleton.mp member]
    exact recognised

theorem statementsRecognised_leaves {statements : List Statement} {leaf : Statement}
    (recognised : StatementsRecognised statements) (member : leaf ∈ leavesOf statements) :
    leaf.Recognised := by
  cases statements with
  | nil => contradiction
  | cons statement rest =>
    rcases List.mem_append.mp member with member | member
    · exact Statement.Recognised.leaves recognised.1 member
    · exact statementsRecognised_leaves recognised.2 member

end

theorem Function.Recognised.leaves {function : Function} {leaf : Statement}
    (recognised : function.Recognised) (member : leaf ∈ function.leaves) : leaf.Recognised := by
  obtain ⟨body, declared, inside⟩ := Function.mem_leaves.mp member
  exact statementsRecognised_leaves (recognised body declared) inside

end ContractAsm.Source

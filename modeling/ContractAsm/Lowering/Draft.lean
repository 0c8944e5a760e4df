import ContractAsm.Ir.Basic
import ContractAsm.Lowering.Failure

/-!
# Functions under construction

A draft is started when the lowering of a function starts, takes its statements one by one,
and is committed once. After that it takes no more.
-/

namespace ContractAsm.Lowering

inductive DraftState where
  | active
  | committed
deriving DecidableEq, Repr

def DraftState.name : DraftState → Text
  | active => "active"
  | committed => "committed"

structure FunctionDraft where
  name : Text
  location : Location
  statements : List Ir.Statement
  state : DraftState

namespace FunctionDraft

def start (name : Text) (location : Location) : FunctionDraft := ⟨name, location, [], .active⟩

def append (draft : FunctionDraft) (statement : Ir.Statement) : Except Failure FunctionDraft :=
  match draft.state with
  | .active => .ok { draft with statements := draft.statements ++ [statement] }
  | .committed => .error (.inconsistent (.appendedAfterCommit draft.name))

def definition (draft : FunctionDraft) : Ir.Statement :=
  .functionDefinition draft.name [] [] (.mk draft.statements none) (some draft.location)

def commit (draft : FunctionDraft) : Except Failure (Ir.Statement × FunctionDraft) :=
  match draft.state with
  | .active => .ok (draft.definition, { draft with state := .committed })
  | .committed => .error (.inconsistent (.committedTwice draft.name))

end FunctionDraft

end ContractAsm.Lowering

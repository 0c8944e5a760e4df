import ContractAsm.Json.Basic

/-!
# Results of a validation

A document is valid, and then has a value, or invalid for a list of reasons.
-/

namespace ContractAsm.Validation

structure Finding where
  path : Text
  message : Text
  value : Option Json := none

namespace Finding

/-- The text of a way from the root; the root itself has a sign of its own. -/
def pathText (path : List Text) : Text :=
  let joined := Text.join "." path
  if joined.isEmpty then "$" else joined

def line (finding : Finding) : Text := "  " ++ finding.path ++ ": " ++ finding.message

def lines (findings : List Finding) : Text := Text.join "\n" (findings.map line)

end Finding

/-- The result of a validation. A valid result may come without a value. -/
inductive Result (α : Type) where
  | valid (value : Option α)
  | invalid (findings : List Finding)

namespace Result

def isValid {α : Type} : Result α → Bool
  | valid _ => true
  | invalid _ => false

def findings {α : Type} : Result α → List Finding
  | valid _ => []
  | invalid findings => findings

def value? {α : Type} : Result α → Option α
  | valid value => value
  | invalid _ => none

/-- All findings of several results, or else the values of those that have one. -/
def combine {α : Type} (results : List (Result α)) : Result (List α) :=
  match results.flatMap findings with
  | [] => valid (some (results.filterMap value?))
  | found => invalid found

end Result

/-- What comes of validating a document. A validation that breaks off has no result. -/
inductive Verdict (α : Type) where
  | valid (value : Option α)
  | invalid (findings : List Finding)
  | failed

namespace Verdict

def isValid {α : Type} : Verdict α → Bool
  | valid _ => true
  | invalid _ | failed => false

def findings {α : Type} : Verdict α → List Finding
  | invalid findings => findings
  | valid _ | failed => []

def value? {α : Type} : Verdict α → Option α
  | valid value => value
  | invalid _ | failed => none

end Verdict

end ContractAsm.Validation

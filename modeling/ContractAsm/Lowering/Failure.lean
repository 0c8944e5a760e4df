import ContractAsm.Asm.Legacy
import ContractAsm.Error
import ContractAsm.Ir.Diagnostic
import ContractAsm.Source.Basic

/-!
# Why lowering fails

Either the source uses a construct outside the supported subset, or an invariant of the
compiler is broken, or a statement is of no known kind.
-/

namespace ContractAsm.Lowering

/-- A construct outside the supported subset. -/
inductive Unsupported where
  | contractKind
  | inheritance
  | userDefinedTypes
  | events
  | modifiers
  | constructors
  | unimplementedFunction
  | parameters
  | returnParameters
  | statement (kind : Source.OtherKind)
  | legacyAssembly (form : Asm.LegacyForm)
deriving DecidableEq, Repr

namespace Unsupported

def restriction : Unsupported → Restriction
  | contractKind => .contractKind
  | inheritance => .inheritance
  | userDefinedTypes => .userDefinedTypes
  | events => .events
  | modifiers => .modifiers
  | constructors => .constructors
  | unimplementedFunction => .unimplementedFunction
  | parameters => .parameters
  | returnParameters => .returnParameters
  | statement _ => .statements
  | legacyAssembly _ => .legacyAssembly

def message : Unsupported → Text
  | contractKind => "Non-contracts (libraries, interfaces) are not supported yet."
  | inheritance => "Inheritance not supported yet."
  | userDefinedTypes => "User-defined types not supported yet."
  | events => "Events not supported yet."
  | modifiers => "Modifiers not supported yet."
  | constructors => "Constructors not supported yet."
  | unimplementedFunction => "Unimplemented functions not supported yet."
  | parameters => "Parameters not supported yet."
  | returnParameters => "Return parameters not supported yet."
  | statement kind => "Statement kind \"" ++ kind.name ++ "\" not supported yet."
  | legacyAssembly form => "Inline assembly " ++ form.plural ++ " are not supported yet."

end Unsupported

/-- An invariant of the compiler that was broken. -/
inductive Inconsistency where
  | registeredTwice (contract : Text)
  | uncleanSnippet (name : Text) (diagnostics : List Ir.Diagnostic)
  | appendedAfterCommit (function : Text)
  | committedTwice (function : Text)
deriving DecidableEq, Repr

def diagnosticLine (diagnostic : Ir.Diagnostic) : Text :=
  diagnostic.severity ++ " at " ++ diagnostic.location.start.shown ++ ": " ++ diagnostic.message

def Inconsistency.message : Inconsistency → Text
  | registeredTwice contract => "contract " ++ contract ++ " registered twice"
  | uncleanSnippet name diagnostics =>
      "boilerplate snippet " ++ name ++ " does not parse cleanly: "
        ++ Text.join "; " (diagnostics.map diagnosticLine)
  | appendedAfterCommit function => "statement appended to committed function " ++ function
  | committedTwice function => "function " ++ function ++ " committed twice"

inductive Failure where
  | unsupported (what : Unsupported) (location : Location)
  | inconsistent (what : Inconsistency)
  | unrecognised
deriving DecidableEq, Repr

/-- The report of a failure. For a node of no known kind there is none. -/
def Failure.error? : Failure → Option Error
  | unsupported what location => some (.unsupported what.restriction what.message (some location))
  | inconsistent what => some (.internal what.message)
  | unrecognised => none

end ContractAsm.Lowering

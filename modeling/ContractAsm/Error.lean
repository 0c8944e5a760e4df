import ContractAsm.Json.Writer
import ContractAsm.Location

/-!
# Errors

Every failure that is reported to a user comes down to one record: its code, its message,
the restriction that was violated and the place, where there are such. `Error.line` is the
line a terminal shows.
-/

namespace ContractAsm

/-- The kinds of failure. The compiler reports the named ones; a caller that builds errors
of its own may name another. -/
inductive ErrorCode where
  | unsupportedFeature
  | internalInconsistency
  | validationError
  | parseError
  | other (name : Text)
deriving DecidableEq, Repr

namespace ErrorCode

def name : ErrorCode → Text
  | unsupportedFeature => "UnsupportedFeature"
  | internalInconsistency => "InternalInconsistency"
  | validationError => "ValidationError"
  | parseError => "ParseError"
  | other name => name

def all : List ErrorCode :=
  [unsupportedFeature, internalInconsistency, validationError, parseError]

def ofName (name : Text) : ErrorCode := (all.find? fun code => code.name == name).getD (.other name)

theorem name_ofName (name : Text) : (ofName name).name = name := by
  unfold ofName
  cases found : all.find? fun code => code.name == name with
  | none => rfl
  | some code => simpa using List.find?_some found

end ErrorCode

/-- What the supported subset excludes. The lowering of contracts reports the named ones; a
caller that builds errors of its own may name another. -/
inductive Restriction where
  | contractKind
  | inheritance
  | userDefinedTypes
  | events
  | modifiers
  | unimplementedFunction
  | parameters
  | returnParameters
  | constructors
  | statements
  | legacyAssembly
  | other (name : Text)
deriving DecidableEq, Repr

namespace Restriction

def name : Restriction → Text
  | contractKind => "contractKind"
  | inheritance => "inheritance"
  | userDefinedTypes => "userDefinedTypes"
  | events => "events"
  | modifiers => "modifiers"
  | unimplementedFunction => "unimplementedFunction"
  | parameters => "parameters"
  | returnParameters => "returnParameters"
  | constructors => "constructors"
  | statements => "statements"
  | legacyAssembly => "legacyAssembly"
  | other name => name

def all : List Restriction :=
  [contractKind, inheritance, userDefinedTypes, events, modifiers, unimplementedFunction,
    parameters, returnParameters, constructors, statements, legacyAssembly]

def ofName (name : Text) : Restriction :=
  (all.find? fun restriction => restriction.name == name).getD (.other name)

theorem name_ofName (name : Text) : (ofName name).name = name := by
  unfold ofName
  cases found : all.find? fun restriction => restriction.name == name with
  | none => rfl
  | some restriction => simpa using List.find?_some found

end Restriction

structure Error where
  code : ErrorCode
  message : Text
  restriction : Option Restriction := none
  location : Option Location := none
deriving DecidableEq, Repr

namespace Error

def unsupported (restriction : Restriction) (message : Text) (location : Option Location) : Error :=
  ⟨.unsupportedFeature, message, some restriction, location⟩

/-- An invariant that the compiler itself keeps was broken. -/
def internal (message : Text) : Error :=
  ⟨.internalInconsistency, "Internal inconsistency: " ++ message, none, none⟩

def parse (message : Text) (location : Location) : Error :=
  ⟨.parseError, message, none, some location⟩

/-- A document is not what it should be; the offending value is shown if it is given. -/
def validation (path message : Text) (value : Option Json) : Error :=
  let shown : Text := match value with
    | some value => " (value: " ++ value.compress ++ ")"
    | none => ""
  ⟨.validationError, "Validation error at " ++ path ++ ": " ++ message ++ shown, none, none⟩

def isUnsupported (error : Error) : Bool := error.code = .unsupportedFeature

def isInconsistency (error : Error) : Bool := error.code = .internalInconsistency

/-- The code, the restriction and the place where there are such, and the message. -/
def line (error : Error) : Text :=
  let restriction : Text := match error.restriction with
    | some restriction => " [" ++ restriction.name ++ "]"
    | none => ""
  let place : Text := match error.location with
    | some location => " at " ++ location.source.getD .empty ++ ":" ++ location.start.shown
    | none => ""
  error.code.name ++ restriction ++ place ++ ": " ++ error.message

end Error

end ContractAsm

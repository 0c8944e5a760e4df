import ContractAsm.Schema.Check
import ContractAsm.Source.Document
import ContractAsm.Validation.Result

/-!
# Validating documents

A document is first checked against its schema. A source unit that passes is then checked
for what a schema cannot say: no location ends before it starts, qualified names differ,
every function has a name but the fallback, of which a contract has at most one. Every
violation is reported, contract by contract and function by function.
-/

namespace ContractAsm.Validation

/-! ## Structure -/

def checkAgainst (schema : Schema) (document : Json) : Verdict Json :=
  bif schema.breaksOff (some document) then .failed
  else
    let outcome := schema.check (some document)
    match outcome.issues with
    | [] => .valid outcome.value
    | issues => .invalid (issues.map fun issue => ⟨Finding.pathText issue.path, issue.fault.message, none⟩)

/-- Validates a block of the IR. Only its structure is checked. -/
def irBlock (document : Json) : Verdict Json := checkAgainst NodeType.irBlock.schema document

/-! ## Meaning -/

open Source (Statement Block Function Contract SourceUnit)

def found (path : List Text) (message : Text) (value : Option Json) : Finding :=
  ⟨Finding.pathText path, message, value⟩

def element (member : Text) (index : Nat) : List Text := [member, toString index]

def locationFindings (path : List Text) (location : Location) : List Finding :=
  if location.isInverted then
    [found (path.concat "location") "Location start is after its end" (some location.toJson)]
  else []

mutual

/-- The inverted locations of a statement and of the statements in it. -/
def statementFindings (path : List Text) : Statement → List Finding
  | .block statements location =>
      locationFindings path location ++ statementsFindings path 0 statements
  | .throw location => locationFindings path location
  | .inlineAssembly _ location => locationFindings path location
  | .other _ location => locationFindings path location
  | .unrecognised _ => []

def statementsFindings (path : List Text) (index : Nat) : List Statement → List Finding
  | [] => []
  | statement :: rest =>
      statementFindings (path ++ element "statements" index) statement
        ++ statementsFindings path (index + 1) rest

end

def blockFindings (path : List Text) (block : Block) : List Finding :=
  locationFindings path block.location ++ statementsFindings path 0 block.statements

def namingFindings (path : List Text) (function : Function) (fallbackBefore : Bool) : List Finding :=
  match function.kind with
  | .fallback =>
      (if ¬ function.name.isEmpty then
        [found path "Fallback function must be unnamed" (some (.string function.name))] else [])
      ++ (if fallbackBefore then
        [found path "Contract declares more than one fallback function" none] else [])
  | .ordinary => if function.name.isEmpty then [found path "Function must be named" none] else []
  | .creation => []

def functionFindings (path : List Text) (function : Function) (fallbackBefore : Bool) : List Finding :=
  locationFindings path function.location ++ namingFindings path function fallbackBefore
    ++ (match function.body with
      | some body => blockFindings (path.concat "body") body
      | none => [])

/-- The findings of functions. The flag tells whether a fallback came before them. -/
def functionsFindings (path : List Text) (index : Nat) (fallbackBefore : Bool) :
    List Function → List Finding
  | [] => []
  | function :: rest =>
      functionFindings (path ++ element "functions" index) function fallbackBefore
        ++ functionsFindings path (index + 1) (fallbackBefore || function.isFallback) rest

def contractFindings (path : List Text) (seen : List Text) (contract : Contract) : List Finding :=
  (if seen.contains contract.qualifiedName then
    [found path "Duplicate fully qualified name" (some (.string contract.qualifiedName))] else [])
  ++ locationFindings path contract.location
  ++ functionsFindings path 0 false contract.functions

def contractResults (index : Nat) (seen : List Text) : List Contract → List (Result Contract)
  | [] => []
  | contract :: rest =>
      let result : Result Contract :=
        match contractFindings (element "contracts" index) seen contract with
        | [] => .valid (some contract)
        | findings => .invalid findings
      result :: contractResults (index + 1) (contract.qualifiedName :: seen) rest

/-- The violations of a source unit that a schema cannot tell. -/
def sourceUnitFindings (source : SourceUnit) : List Finding :=
  (Result.combine (contractResults 0 [] source.contracts)).findings

/-! ## Source units -/

/-- A valid source unit: its document with the declared members alone, and its tree. -/
structure ValidSourceUnit where
  document : Json
  tree : SourceUnit

def sourceUnit (document : Json) : Verdict ValidSourceUnit :=
  match checkAgainst DocumentType.sourceUnit.schema document with
  | .failed => .failed
  | .invalid findings => .invalid findings
  | .valid none => .invalid []
  | .valid (some declared) =>
      match SourceUnit.ofJson? declared with
      | none => .invalid []
      | some tree =>
          match sourceUnitFindings tree with
          | [] => .valid (some ⟨declared, tree⟩)
          | findings => .invalid findings

end ContractAsm.Validation

import ContractAsm.Asm.Document
import ContractAsm.Source.Basic

/-!
# Source contracts as documents

Reading takes the members that each node declares and passes over all others. A statement
of an unknown kind is kept as it came.
-/

namespace ContractAsm.Source

def locationOf? (document : Json) : Option Location := do
  Location.ofJson? (← document.member? "location")

mutual

def Statement.ofJson? (document : Json) : Option Statement :=
  match document.kind? with
  | some "block" => do
      let ⟨statements, _⟩ ← document.items? "statements"
      return .block (← statementsOfJson? statements) (← locationOf? document)
  | some "throw" => (locationOf? document).map .throw
  | some "inlineAssembly" => do
      return .inlineAssembly (← Asm.Block.ofJson? (← document.member? "operations"))
        (← locationOf? document)
  | some kind =>
      match OtherKind.ofName? kind with
      | some kind => (locationOf? document).map (.other kind)
      | none => some (.unrecognised document)
  | none => some (.unrecognised document)
termination_by sizeOf document

def statementsOfJson? (documents : List Json) : Option (List Statement) :=
  match documents with
  | [] => some []
  | document :: rest => do return (← Statement.ofJson? document) :: (← statementsOfJson? rest)
termination_by sizeOf documents

end

def Block.ofJson? (document : Json) : Option Block := do
  return ⟨← statementsOfJson? (← (← document.member? "statements").array?), ← locationOf? document⟩

def NamedDeclaration.ofJson? (document : Json) : Option NamedDeclaration := do
  return ⟨← document.textAt? "name", ← document.optionalAt? "location" Location.ofJson?⟩

def Parameter.ofJson? (document : Json) : Option Parameter := do
  return ⟨← document.textAt? "name", ← document.textAt? "type"⟩

def Function.ofJson? (document : Json) : Option Function := do
  return {
    name := ← document.textAt? "name"
    kind := ← Function.Kind.ofName? (← document.textAt? "functionKind")
    visibility := ← Visibility.ofName? (← document.textAt? "visibility")
    mutability := ← Mutability.ofName? (← document.textAt? "stateMutability")
    implemented := ← (← document.member? "implemented").bool?
    modifiers := ← document.listAt? "modifiers" NamedDeclaration.ofJson?
    parameters := ← document.listAt? "parameters" Parameter.ofJson?
    returnParameters := ← document.listAt? "returnParameters" Parameter.ofJson?
    body := ← document.optionalAt? "body" Block.ofJson?
    location := ← locationOf? document }

def Contract.ofJson? (document : Json) : Option Contract := do
  return {
    name := ← document.textAt? "name"
    qualifiedName := ← document.textAt? "fullyQualifiedName"
    kind := ← Contract.Kind.ofName? (← document.textAt? "contractKind")
    baseContracts := ← document.listAt? "baseContracts" NamedDeclaration.ofJson?
    structs := ← document.listAt? "structs" NamedDeclaration.ofJson?
    enums := ← document.listAt? "enums" NamedDeclaration.ofJson?
    events := ← document.listAt? "events" NamedDeclaration.ofJson?
    modifiers := ← document.listAt? "modifiers" NamedDeclaration.ofJson?
    functions := ← document.listAt? "functions" Function.ofJson?
    location := ← locationOf? document }

def SourceUnit.ofJson? (document : Json) : Option SourceUnit := do
  return ⟨← document.textAt? "path", ← document.listAt? "contracts" Contract.ofJson?⟩

end ContractAsm.Source

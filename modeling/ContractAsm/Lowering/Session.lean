import ContractAsm.Lowering.Contract

/-!
# Sessions

Several registries, each used by any number of generators. Every operation works on one
registry, which is known by its number, and leaves the others as they are.
-/

namespace ContractAsm.Lowering

/-- The registries of a session, in the order in which they were opened. -/
structure Session where
  registries : List Registry

inductive Operation where
  | lowerUnit (unit : Source.SourceUnit)
  | lowerContract (contract : Source.Contract)
  | lowerFunction (function : Source.Function)
  | register (name : Text) (block : Ir.Block)

inductive Reply where
  | contracts (contracts : List LoweredContract)
  | contract (contract : LoweredContract)
  | definition (definition : Ir.Statement)
  | registered

structure Step where
  lines : List Text
  registry : Registry
  result : Except Failure Reply

def Registry.perform (registry : Registry) : Operation → Step
  | .lowerUnit source =>
      let lowered := Lowering.lowerUnit registry source
      ⟨lowered.lines, lowered.registry, lowered.result.map .contracts⟩
  | .lowerContract contract =>
      match Lowering.lowerContract registry contract with
      | ⟨lines, .ok (lowered, registry)⟩ => ⟨lines, registry, .ok (.contract lowered)⟩
      | ⟨lines, .error failure⟩ => ⟨lines, registry, .error failure⟩
  | .lowerFunction function =>
      match Lowering.lowerFunction function with
      | ⟨lines, result⟩ => ⟨lines, registry, result.map .definition⟩
  | .register name block =>
      match registry.register name block with
      | .ok registry => ⟨[], registry, .ok .registered⟩
      | .error failure => ⟨[], registry, .error failure⟩

namespace Session

def empty : Session := ⟨[]⟩

def opened (session : Session) : Nat × Session :=
  (session.registries.length, ⟨session.registries ++ [.empty]⟩)

def registry (session : Session) (number : Nat) : Registry := session.registries.getD number .empty

def perform (session : Session) (number : Nat) (operation : Operation) : Step × Session :=
  let step := (session.registry number).perform operation
  (step, ⟨session.registries.set number step.registry⟩)

end Session

end ContractAsm.Lowering

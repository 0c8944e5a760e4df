import ContractAsm.Lowering.Contract

/-!
# Generators

A generator lowers contracts into a registry and shows what it does, or does not. All
generators of a running program share what was read of snippets, so that every snippet is read
once.
-/

namespace ContractAsm.Lowering

open Source (Contract SourceUnit)

/-! ## Results that read snippets -/

/-- A traced result that depends on what was read of snippets before and adds to it. -/
def Reading (α : Type) : Type := SnippetCache → Traced α × SnippetCache

namespace Reading

def ofTraced {α : Type} (outcome : Traced α) : Reading α := fun cache => (outcome, cache)

def bind {α β : Type} (first : Reading α) (next : α → Reading β) : Reading β := fun cache =>
  match first cache with
  | (⟨lines, .error failure⟩, cache) => (⟨lines, .error failure⟩, cache)
  | (⟨lines, .ok value⟩, cache) =>
      match next value cache with
      | (⟨more, result⟩, cache) => (⟨lines ++ more, result⟩, cache)

instance : Monad Reading where
  pure value := ofTraced (Traced.ok value)
  bind := bind

end Reading

/-- Adds the helpers and the switch to the block of a contract. The helpers are read only if
they were not read before. -/
def readDispatcher (contract : Contract) (body : Ir.Block) : Reading Ir.Block := fun cache =>
  match cache.appendTo body dispatcherSnippets with
  | ((body, none), cache) => (Traced.ok (body.append [dispatcherSwitch contract]), cache)
  | ((_, some failure), cache) => (Traced.ofExcept (.error failure), cache)

def readContract (registry : Registry) (contract : Contract) : Reading (LoweredContract × Registry) := do
  Reading.ofTraced (Traced.ofExcept (admitContract contract))
  let name := contract.qualifiedName
  if registry.has name then
    Reading.ofTraced (Traced.ofExcept (.error (.inconsistent (.registeredTwice name))))
  Reading.ofTraced (Traced.tell ("lowering contract " ++ name))
  let definitions ← Reading.ofTraced (lowerFunctions contract.functions)
  let block ← readDispatcher contract (.mk definitions (some contract.location))
  let registry ← Reading.ofTraced (Traced.ofExcept (registry.register name block))
  return (⟨name, block⟩, registry)

/-! ## Generators -/

structure Generator where
  registry : Registry
  verbose : Bool

structure Produced (α : Type) where
  shown : List Text
  generator : Generator
  cache : SnippetCache
  result : Except Failure α

namespace Generator

def fresh (verbose : Bool) : Generator := ⟨.empty, verbose⟩

/-- What is left behind when a contract is lowered with these lines and this result. -/
def produce (generator : Generator) (cache : SnippetCache) :
    Traced (LoweredContract × Registry) → Produced LoweredContract
  | ⟨lines, .ok (lowered, registry)⟩ =>
      ⟨shownLines generator.verbose lines, { generator with registry }, cache, .ok lowered⟩
  | ⟨lines, .error failure⟩ => ⟨shownLines generator.verbose lines, generator, cache, .error failure⟩

def lowerContract (generator : Generator) (cache : SnippetCache) (contract : Contract) :
    Produced LoweredContract :=
  let (outcome, cache) := readContract generator.registry contract cache
  generator.produce cache outcome

/-- Lowers contracts in their order, up to the first that fails. -/
def lowerContracts (generator : Generator) (cache : SnippetCache) :
    List Contract → Produced (List LoweredContract)
  | [] => ⟨[], generator, cache, .ok []⟩
  | contract :: rest =>
      match generator.lowerContract cache contract with
      | ⟨shown, generator, cache, .error failure⟩ => ⟨shown, generator, cache, .error failure⟩
      | ⟨shown, generator, cache, .ok first⟩ =>
          let others := lowerContracts generator cache rest
          ⟨shown ++ others.shown, others.generator, others.cache, others.result.map (first :: ·)⟩

def lowerUnit (generator : Generator) (cache : SnippetCache) (source : SourceUnit) :
    Produced (List LoweredContract) :=
  generator.lowerContracts cache source.contracts

end Generator

end ContractAsm.Lowering

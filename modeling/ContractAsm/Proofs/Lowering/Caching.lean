import ContractAsm.Lowering.Generator
import ContractAsm.Proofs.Lowering.Violations

/-!
# What was read before makes no difference

A snippet that is read once is remembered, by its source alone. Whatever a program has done
before, what it remembers is what reading again would give. So generators lower contracts as if
they read every snippet anew.
-/

namespace ContractAsm.Lowering

open Source (Contract)

/-! ## Caches -/

/-- Everything that is remembered is what the source is read as, under any name. -/
def SnippetCache.IsSound (cache : SnippetCache) : Prop :=
  ∀ (snippet : Snippet) statements, cache.find? snippet.source = some statements →
    snippet.statements = .ok statements

theorem Snippet.statements_congr {snippet other : Snippet} (same : other.source = snippet.source)
    {statements : List Ir.Statement} (read : snippet.statements = .ok statements) :
    other.statements = .ok statements := by
  unfold Snippet.statements at read ⊢
  rw [same]
  generalize Ir.parse snippet.source Snippet.dialect = outcome at read ⊢
  obtain ⟨block, diagnostics⟩ := outcome
  cases block with
  | none => contradiction
  | some block =>
    cases diagnostics with
    | nil => exact read
    | cons => contradiction

theorem append_nil (block : Ir.Block) : block.append [] = block := by
  cases block
  rw [Ir.Block.append, List.append_nil]

theorem append_append (block : Ir.Block) (first second : List Ir.Statement) :
    (block.append first).append second = block.append (first ++ second) := by
  cases block
  simp only [Ir.Block.append, List.append_assoc]

theorem Snippet.appendTo_nil (target : Ir.Block) : Snippet.appendTo target [] = (target, none) := by
  simp only [Snippet.appendTo, Snippet.collect, append_nil]

theorem Snippet.appendTo_ok {snippet : Snippet} {statements : List Ir.Statement}
    (read : snippet.statements = .ok statements) (target : Ir.Block) (rest : List Snippet) :
    Snippet.appendTo target (snippet :: rest) = Snippet.appendTo (target.append statements) rest := by
  simp only [Snippet.appendTo, Snippet.collect, read, append_append]

theorem Snippet.appendTo_error {snippet : Snippet} {failure : Failure}
    (read : snippet.statements = .error failure) (target : Ir.Block) (rest : List Snippet) :
    Snippet.appendTo target (snippet :: rest) = (target, some failure) := by
  simp only [Snippet.appendTo, Snippet.collect, read, append_nil]

namespace SnippetCache

theorem isSound_empty : empty.IsSound := nofun

variable {cache : SnippetCache}

theorem IsSound.add (sound : cache.IsSound) {snippet : Snippet} {statements : List Ir.Statement}
    (read : snippet.statements = .ok statements) :
    (⟨(snippet.source, statements) :: cache.entries⟩ : SnippetCache).IsSound := by
  intro other found here
  rw [find?, List.lookup_cons] at here
  by_cases same : other.source = snippet.source
  · rw [beq_iff_eq.mpr same] at here
    cases here
    exact Snippet.statements_congr same read
  · rw [beq_false_of_ne same] at here
    exact sound other found here

/-- Reading with a sound cache is reading, and the cache stays sound. -/
theorem IsSound.statements (sound : cache.IsSound) (snippet : Snippet) :
    (cache.statements snippet).1 = snippet.statements ∧ (cache.statements snippet).2.IsSound := by
  unfold SnippetCache.statements
  cases found : cache.find? snippet.source with
  | some statements => exact ⟨(sound snippet statements found).symm, sound⟩
  | none =>
    cases read : snippet.statements with
    | ok statements => exact ⟨rfl, sound.add read⟩
    | error failure => exact ⟨rfl, sound⟩

/-- Snippets are added with a sound cache as they are without one. -/
theorem IsSound.appendTo (sound : cache.IsSound) (target : Ir.Block) (snippets : List Snippet) :
    (cache.appendTo target snippets).1 = Snippet.appendTo target snippets
      ∧ (cache.appendTo target snippets).2.IsSound := by
  induction snippets generalizing cache target with
  | nil =>
    rw [SnippetCache.appendTo, Snippet.appendTo_nil]
    exact ⟨rfl, sound⟩
  | cons snippet rest ih =>
    obtain ⟨same, still⟩ := sound.statements snippet
    rw [SnippetCache.appendTo]
    generalize cache.statements snippet = outcome at same still
    obtain ⟨result, after⟩ := outcome
    cases result with
    | ok statements =>
      rw [Snippet.appendTo_ok same.symm]
      exact ih still (target.append statements)
    | error failure =>
      rw [Snippet.appendTo_error same.symm]
      exact ⟨rfl, still⟩

end SnippetCache

/-! ## Programs that read snippets -/

/-- With a sound cache the result is the plain one, and the cache stays sound. -/
def Agrees {α : Type} (reading : Reading α) (plain : Traced α) : Prop :=
  ∀ cache : SnippetCache, cache.IsSound → (reading cache).1 = plain ∧ (reading cache).2.IsSound

theorem agrees_ofTraced {α : Type} (outcome : Traced α) : Agrees (Reading.ofTraced outcome) outcome :=
  fun _ sound => ⟨rfl, sound⟩

theorem Agrees.bind {α β : Type} {first : Reading α} {plain : Traced α} {next : α → Reading β}
    {others : α → Traced β} (here : Agrees first plain) (behind : ∀ value, Agrees (next value) (others value)) :
    Agrees (first >>= next) (plain >>= others) := by
  intro cache sound
  obtain ⟨same, still⟩ := here cache sound
  show (Reading.bind first next cache).1 = Traced.bind plain others ∧ (Reading.bind first next cache).2.IsSound
  unfold Reading.bind Traced.bind
  generalize first cache = outcome at same still
  obtain ⟨⟨lines, result⟩, after⟩ := outcome
  cases same
  cases result with
  | error failure => exact ⟨rfl, still⟩
  | ok value =>
    obtain ⟨rest, last⟩ := behind value after still
    dsimp only
    rw [← rest]
    exact ⟨rfl, last⟩

theorem agrees_dispatcher (contract : Contract) (body : Ir.Block) :
    Agrees (readDispatcher contract body) (Traced.ofExcept (appendDispatcher contract body)) := by
  intro cache sound
  obtain ⟨same, still⟩ := sound.appendTo body dispatcherSnippets
  unfold readDispatcher appendDispatcher
  rw [← same]
  generalize cache.appendTo body dispatcherSnippets = outcome at still
  obtain ⟨⟨block, failure⟩, after⟩ := outcome
  cases failure with
  | none => exact ⟨rfl, still⟩
  | some failure => exact ⟨rfl, still⟩

theorem agrees_contract (registry : Registry) (contract : Contract) :
    Agrees (readContract registry contract) (lowerContract registry contract) := by
  unfold readContract lowerContract
  have lowered : @Agrees (LoweredContract × Registry)
      (do
        Reading.ofTraced (Traced.tell ("lowering contract " ++ contract.qualifiedName))
        let definitions ← Reading.ofTraced (lowerFunctions contract.functions)
        let block ← readDispatcher contract (.mk definitions (some contract.location))
        let registry ← Reading.ofTraced (Traced.ofExcept (registry.register contract.qualifiedName block))
        return (⟨contract.qualifiedName, block⟩, registry))
      (do
        Traced.tell ("lowering contract " ++ contract.qualifiedName)
        let definitions ← lowerFunctions contract.functions
        let block ← Traced.ofExcept (appendDispatcher contract (.mk definitions (some contract.location)))
        let registry ← Traced.ofExcept (registry.register contract.qualifiedName block)
        return (⟨contract.qualifiedName, block⟩, registry)) := by
    refine (agrees_ofTraced _).bind fun _ => ?_
    refine (agrees_ofTraced _).bind fun definitions => ?_
    refine (agrees_dispatcher contract _).bind fun block => ?_
    refine (agrees_ofTraced _).bind fun after => ?_
    exact agrees_ofTraced _
  refine (agrees_ofTraced _).bind fun _ => ?_
  by_cases taken : registry.has contract.qualifiedName = true
  · simp only [if_pos taken]
    exact (agrees_ofTraced _).bind fun _ => lowered
  · simp only [if_neg taken]
    exact lowered

/-! ## Generators -/

/-- A generator does what lowering into its registry does, shows it if it is asked to, and
leaves a sound cache. -/
structure Generator.Follows (generator : Generator) (lowered : Lowered)
    (produced : Produced (List LoweredContract)) : Prop where
  shown : produced.shown = shownLines generator.verbose lowered.lines
  generator : produced.generator = ⟨lowered.registry, generator.verbose⟩
  result : produced.result = lowered.result
  sound : produced.cache.IsSound

theorem shownLines_append (verbose : Bool) (first second : List Text) :
    shownLines verbose (first ++ second) = shownLines verbose first ++ shownLines verbose second := by
  cases verbose with
  | true => exact List.map_append
  | false => rfl

namespace Generator

variable {cache : SnippetCache}

theorem lowerContract_eq (generator : Generator) (sound : cache.IsSound) (contract : Contract) :
    ∃ after : SnippetCache, after.IsSound ∧ generator.lowerContract cache contract
      = generator.produce after (Lowering.lowerContract generator.registry contract) := by
  obtain ⟨same, still⟩ := agrees_contract generator.registry contract cache sound
  refine ⟨_, still, ?_⟩
  rw [← same, Generator.lowerContract]

theorem follows_lowerContracts (generator : Generator) (sound : cache.IsSound) (contracts : List Contract) :
    generator.Follows (Lowering.lowerContracts generator.registry contracts)
      (generator.lowerContracts cache contracts) := by
  induction contracts generalizing generator cache with
  | nil =>
    refine ⟨?_, rfl, rfl, sound⟩
    cases generator.verbose <;> rfl
  | cons contract rest ih =>
    obtain ⟨after, still, same⟩ := generator.lowerContract_eq sound contract
    rw [Lowering.lowerContracts, Generator.lowerContracts, same]
    cases Lowering.lowerContract generator.registry contract with
    | mk lines result =>
      cases result with
      | error failure => exact ⟨rfl, rfl, rfl, still⟩
      | ok lowered =>
        have others := ih ⟨lowered.2, generator.verbose⟩ still
        refine ⟨?_, others.generator, ?_, others.sound⟩
        · rw [shownLines_append]
          exact congrArg _ others.shown
        · exact congrArg (Except.map (lowered.1 :: ·)) others.result

end Generator

/-! ## Histories -/

/-- The caches that a program can have: nothing is remembered at first, and then snippets are
read and contracts are lowered by any generators, in any order. -/
inductive SnippetCache.Reached : SnippetCache → Prop where
  | start : Reached .empty
  | read {cache : SnippetCache} (reached : cache.Reached) (snippet : Snippet) :
      Reached (cache.statements snippet).2
  | appended {cache : SnippetCache} (reached : cache.Reached) (target : Ir.Block) (snippets : List Snippet) :
      Reached (cache.appendTo target snippets).2
  | lowered {cache : SnippetCache} (reached : cache.Reached) (generator : Generator) (contract : Contract) :
      Reached (generator.lowerContract cache contract).cache
  | loweredUnit {cache : SnippetCache} (reached : cache.Reached) (generator : Generator)
      (source : Source.SourceUnit) : Reached (generator.lowerUnit cache source).cache

theorem SnippetCache.Reached.isSound {cache : SnippetCache} (reached : cache.Reached) : cache.IsSound := by
  induction reached with
  | start => exact isSound_empty
  | read _ snippet ih => exact (ih.statements snippet).2
  | appended _ target snippets ih => exact (ih.appendTo target snippets).2
  | lowered _ generator contract ih =>
    obtain ⟨after, still, same⟩ := generator.lowerContract_eq ih contract
    rw [same]
    cases Lowering.lowerContract generator.registry contract with
    | mk lines result =>
      cases result with
      | error failure => exact still
      | ok lowered => exact still
  | loweredUnit _ generator source ih => exact (generator.follows_lowerContracts ih source.contracts).sound

end ContractAsm.Lowering

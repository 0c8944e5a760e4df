import ContractAsm.Proofs.Lowering.Caching
import Mathlib.Data.List.Forall2

/-!
# Histories of snippets

A program reads snippets and adds them to blocks, in any order and under any names, and what was
read before is remembered. Every single use yields what its own snippets alone determine: clean
snippets yield the statements of a reading of their own, and the first one that is not clean yields
a failure that names it.
-/

namespace ContractAsm.Lowering

/-! ## Clean snippets -/

namespace Snippet

/-- The source is read as a block, and nothing is found in it. -/
def IsClean (snippet : Snippet) : Prop :=
  ∃ block, Ir.parse snippet.source dialect = ⟨some block, []⟩

def written (snippet : Snippet) : List Ir.Statement :=
  ((Ir.parse snippet.source dialect).block.getD .empty).statements

def refusal (snippet : Snippet) : Failure :=
  .inconsistent (.uncleanSnippet snippet.name (Ir.parse snippet.source dialect).diagnostics)

theorem statements_of_clean {snippet : Snippet} (clean : snippet.IsClean) :
    snippet.statements = .ok snippet.written := by
  obtain ⟨block, read⟩ := clean
  rw [statements, written, read]
  rfl

theorem statements_of_unclean {snippet : Snippet} (unclean : ¬ snippet.IsClean) :
    snippet.statements = .error snippet.refusal := by
  rw [IsClean] at unclean
  rw [statements, refusal]
  generalize Ir.parse snippet.source dialect = outcome at unclean ⊢
  obtain ⟨block, diagnostics⟩ := outcome
  cases block with
  | none => rfl
  | some block =>
    cases diagnostics with
    | nil => exact absurd ⟨block, rfl⟩ unclean
    | cons => rfl

theorem collect_append {clean : List Snippet} (each : ∀ snippet ∈ clean, snippet.IsClean)
    (rest : List Snippet) :
    collect (clean ++ rest) = (clean.flatMap written ++ (collect rest).1, (collect rest).2) := by
  induction clean with
  | nil => rfl
  | cons snippet clean ih =>
    rw [List.forall_mem_cons] at each
    rw [List.cons_append, collect, statements_of_clean each.1, ih each.2, List.flatMap_cons,
      List.append_assoc]

/-- Snippets are clean, or there is a first one that is not. -/
theorem exists_longest_clean (snippets : List Snippet) :
    (∀ snippet ∈ snippets, snippet.IsClean)
      ∨ ∃ clean unclean rest, snippets = clean ++ unclean :: rest
        ∧ (∀ snippet ∈ clean, snippet.IsClean) ∧ ¬ unclean.IsClean := by
  induction snippets with
  | nil => exact .inl nofun
  | cons snippet rest ih =>
    by_cases first : snippet.IsClean
    · rcases ih with all | ⟨clean, unclean, others, rfl, each, stop⟩
      · exact .inl (List.forall_mem_cons.mpr ⟨first, all⟩)
      · exact .inr ⟨snippet :: clean, unclean, others, rfl, List.forall_mem_cons.mpr ⟨first, each⟩, stop⟩
    · exact .inr ⟨[], snippet, rest, rfl, nofun, first⟩

end Snippet

/-! ## Single uses -/

/-- A use of snippets: one of them is read, or some are added to a block. -/
inductive SnippetUse where
  | read (snippet : Snippet)
  | append (target : Ir.Block) (snippets : List Snippet := dispatcherSnippets)

/-- What a use comes to: statements or a failure, or a block and the failure that cut it short. -/
inductive SnippetYield where
  | read (result : Except Failure (List Ir.Statement))
  | appended (block : Ir.Block) (failure : Option Failure)

/-- What a use has to come to, by its own snippets. Of snippets that are added, those in front of
the first that is not clean count. -/
inductive SnippetUse.Yields : SnippetUse → SnippetYield → Prop where
  | clean {snippet : Snippet} (clean : snippet.IsClean) :
      Yields (.read snippet) (.read (.ok snippet.written))
  | unclean {snippet : Snippet} (unclean : ¬ snippet.IsClean) :
      Yields (.read snippet) (.read (.error snippet.refusal))
  | whole {target : Ir.Block} {snippets : List Snippet} (each : ∀ snippet ∈ snippets, snippet.IsClean) :
      Yields (.append target snippets)
        (.appended (target.append (snippets.flatMap Snippet.written)) none)
  | stopped {target : Ir.Block} {clean rest : List Snippet} {unclean : Snippet}
      (each : ∀ snippet ∈ clean, snippet.IsClean) (stop : ¬ unclean.IsClean) :
      Yields (.append target (clean ++ unclean :: rest))
        (.appended (target.append (clean.flatMap Snippet.written)) (some unclean.refusal))

/-- What a use comes to if every source is read anew. -/
def SnippetUse.uncached : SnippetUse → SnippetYield
  | .read snippet => .read snippet.statements
  | .append target snippets =>
      let (block, failure) := Snippet.appendTo target snippets
      .appended block failure

theorem SnippetUse.Yields.uncached_eq {use : SnippetUse} {result : SnippetYield} (yields : use.Yields result) :
    use.uncached = result := by
  cases yields with
  | clean clean => rw [uncached, Snippet.statements_of_clean clean]
  | unclean unclean => rw [uncached, Snippet.statements_of_unclean unclean]
  | @whole target snippets each =>
    have collected := Snippet.collect_append each []
    rw [List.append_nil] at collected
    simp only [uncached, Snippet.appendTo, collected, Snippet.collect, List.append_nil]
  | stopped each stop =>
    simp only [uncached, Snippet.appendTo, Snippet.collect_append each, Snippet.collect,
      Snippet.statements_of_unclean stop, List.append_nil]

theorem SnippetUse.exists_yields (use : SnippetUse) : ∃ result, use.Yields result := by
  cases use with
  | read snippet =>
    by_cases clean : snippet.IsClean
    · exact ⟨_, .clean clean⟩
    · exact ⟨_, .unclean clean⟩
  | append target snippets =>
    rcases Snippet.exists_longest_clean snippets with each | ⟨clean, unclean, rest, rfl, each, stop⟩
    · exact ⟨_, .whole each⟩
    · exact ⟨_, .stopped each stop⟩

theorem SnippetUse.yields_iff {use : SnippetUse} {result : SnippetYield} :
    use.Yields result ↔ use.uncached = result := by
  refine ⟨Yields.uncached_eq, ?_⟩
  rintro rfl
  obtain ⟨result, yields⟩ := use.exists_yields
  rwa [yields.uncached_eq]

/-! ## Uses in a row -/

namespace SnippetCache

/-- What a use comes to with what is remembered, and what is remembered then. -/
def perform (cache : SnippetCache) : SnippetUse → SnippetYield × SnippetCache
  | .read snippet =>
      let (result, cache) := cache.statements snippet
      (.read result, cache)
  | .append target snippets =>
      let ((block, failure), cache) := cache.appendTo target snippets
      (.appended block failure, cache)

/-- What uses come to, each with what those before it have left. -/
def performAll (cache : SnippetCache) : List SnippetUse → List SnippetYield
  | [] => []
  | use :: rest =>
      let (result, cache) := cache.perform use
      result :: performAll cache rest

variable {cache : SnippetCache}

/-- With a sound cache a use comes to what it comes to without one, and the cache stays sound. -/
theorem IsSound.perform (sound : cache.IsSound) (use : SnippetUse) :
    (cache.perform use).1 = use.uncached ∧ (cache.perform use).2.IsSound := by
  cases use with
  | read snippet =>
    obtain ⟨same, still⟩ := sound.statements snippet
    rw [SnippetCache.perform, SnippetUse.uncached, ← same]
    exact ⟨rfl, still⟩
  | append target snippets =>
    obtain ⟨same, still⟩ := sound.appendTo target snippets
    rw [SnippetCache.perform, SnippetUse.uncached, ← same]
    exact ⟨rfl, still⟩

theorem IsSound.performAll (sound : cache.IsSound) (uses : List SnippetUse) :
    cache.performAll uses = uses.map SnippetUse.uncached := by
  induction uses generalizing cache with
  | nil => rfl
  | cons use rest ih =>
    obtain ⟨same, still⟩ := sound.perform use
    show (cache.perform use).1 :: (cache.perform use).2.performAll rest = _
    rw [same, ih still, List.map_cons]

end SnippetCache

/-- Whatever a program has done before, its uses of snippets come to what each of them has to come
to by its own snippets, and to nothing else. A failure is an inconsistency that names the snippet
and tells what was found in it. -/
theorem performAll_yields {cache : SnippetCache} (reached : cache.Reached) (uses : List SnippetUse) :
    (∀ results, List.Forall₂ SnippetUse.Yields uses results ↔ results = cache.performAll uses)
      ∧ ∀ snippet : Snippet, snippet.refusal.error? = some (.internal
        ("boilerplate snippet " ++ snippet.name ++ " does not parse cleanly: "
          ++ Text.join "; " ((Ir.parse snippet.source Snippet.dialect).diagnostics.map diagnosticLine))) := by
  have determined : SnippetUse.Yields = fun use result => use.uncached = result := by
    funext use result
    exact propext SnippetUse.yields_iff
  refine ⟨fun results => ?_, fun snippet => rfl⟩
  rw [reached.isSound.performAll, determined, ← List.forall₂_map_left_iff, List.forall₂_eq_eq_eq, eq_comm]

def callingSource : Text := "\x7b f() \x7d"

/-- A switch with a default alone, which is warned of. -/
def warnedSource : Text := "\x7b switch f() default \x7b\x7d \x7d"

/-- A source that was read under another name is clean, one that is warned of is refused each time
under the name that it has then, and only what stands in front of it is added. -/
theorem performAll_yields_renamed :
    ∃ remembered : SnippetCache, remembered.Reached
      ∧ remembered.find? callingSource = some (Snippet.written ⟨"a", callingSource⟩)
      ∧ remembered.performAll [.read ⟨"b", warnedSource⟩, .read ⟨"c", callingSource⟩,
          .append .empty [⟨"d", callingSource⟩, ⟨"e", warnedSource⟩, ⟨"f", callingSource⟩]]
        = [.read (.error (Snippet.refusal ⟨"b", warnedSource⟩)),
          .read (.ok (Snippet.written ⟨"c", callingSource⟩)),
          .appended (Ir.Block.empty.append (Snippet.written ⟨"d", callingSource⟩))
            (some (Snippet.refusal ⟨"e", warnedSource⟩))] := by
  have clean (name : Text) : Snippet.IsClean ⟨name, callingSource⟩ := by
    have read : (Ir.parse callingSource Snippet.dialect).block.isSome = true := by decide +kernel
    have quiet : (Ir.parse callingSource Snippet.dialect).diagnostics = [] := by decide +kernel
    obtain ⟨block, found⟩ := Option.isSome_iff_exists.mp read
    exact ⟨block, by rw [← found, ← quiet]⟩
  have unclean (name : Text) : ¬ Snippet.IsClean ⟨name, warnedSource⟩ := by
    have found : (Ir.parse warnedSource Snippet.dialect).diagnostics ≠ [] := by decide +kernel
    rintro ⟨block, read⟩
    exact found (by rw [read])
  have reached : (SnippetCache.empty.statements ⟨"a", callingSource⟩).2.Reached := .read .start _
  refine ⟨_, reached, ?_, (((performAll_yields reached _).1 _).mp ?_).symm⟩
  · simp only [SnippetCache.statements, SnippetCache.find?, SnippetCache.empty, List.lookup_nil,
      Snippet.statements_of_clean (clean "a"), List.lookup_cons_self]
  · have added := @SnippetUse.Yields.stopped .empty [⟨"d", callingSource⟩] [⟨"f", callingSource⟩]
      ⟨"e", warnedSource⟩ (List.forall_mem_singleton.mpr (clean "d")) (unclean "e")
    rw [List.flatMap_singleton] at added
    exact .cons (.unclean (unclean "b")) (.cons (.clean (clean "c")) (.cons added .nil))

end ContractAsm.Lowering

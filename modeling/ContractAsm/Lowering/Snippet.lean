import ContractAsm.Ir.Parser
import ContractAsm.Lowering.Failure

/-!
# Snippets

Parts of the output that are written as assembly text. A snippet has to read without any
finding, a warning included. The two snippets of the dispatcher check that no value was
sent and find the selector in the call data.
-/

namespace ContractAsm.Lowering

/-- A block of assembly text; its statements are what it stands for. -/
structure Snippet where
  name : Text
  source : Text
deriving DecidableEq, Repr

def snippetSource : Text := "<irgenerated>"

def noValueCheck : Text := "ensureNoValueTransfer"

def selectorReader : Text := "extractCallSignature"

/-- The function that refuses a call with value. -/
def noValueSnippet : Snippet where
  name := noValueCheck
  source := "\x7b\n\t// Revert if value was received.\n\tfunction " ++ noValueCheck
    ++ "()\n\t\x7b\n\t\tswitch callvalue()\n\t\tcase 0:u256 \x7b \x7d\n\t\tdefault \x7b revert(0:u256, 0:u256) \x7d\n\t\x7d\n\x7d"

/-- The function that yields the first four bytes of the call data. -/
def selectorSnippet : Snippet where
  name := selectorReader
  source := "\x7b\n\t// Leading 4 bytes of call data, shifted down by 224 bits.\n\tfunction "
    ++ selectorReader
    ++ "() -> sig:u256\n\t\x7b\n\t\tsig := div(calldataload(0:u256), exp(2:u256, 224:u256))\n\t\x7d\n\x7d"

/-- What the dispatcher relies on, in the order in which it is added. -/
def dispatcherSnippets : List Snippet := [noValueSnippet, selectorSnippet]

namespace Snippet

def dialect : Ir.Dialect := ⟨true, snippetSource⟩

/-- The statements of a snippet that reads without any finding. -/
def statements (snippet : Snippet) : Except Failure (List Ir.Statement) :=
  let result := Ir.parse snippet.source dialect
  match result.block, result.diagnostics with
  | some block, [] => .ok block.statements
  | _, diagnostics => .error (.inconsistent (.uncleanSnippet snippet.name diagnostics))

/-- The statements of the snippets up to the first that fails, and that failure. -/
def collect : List Snippet → List Ir.Statement × Option Failure
  | [] => ([], none)
  | snippet :: rest =>
      match snippet.statements with
      | .ok statements =>
          let (more, failure) := collect rest
          (statements ++ more, failure)
      | .error failure => ([], some failure)

/-- Adds the statements of the snippets to a block. Those before a failing one stay. -/
def appendTo (target : Ir.Block) (snippets : List Snippet) : Ir.Block × Option Failure :=
  let (statements, failure) := collect snippets
  (target.append statements, failure)

end Snippet

/-! ## Reading every source once -/

/-- The statements of sources that were read before. Only clean sources are kept. -/
structure SnippetCache where
  entries : List (Text × List Ir.Statement)

namespace SnippetCache

def empty : SnippetCache := ⟨[]⟩

def find? (cache : SnippetCache) (source : Text) : Option (List Ir.Statement) :=
  cache.entries.lookup source

/-- The statements of a snippet, read only if its source was not read before. -/
def statements (cache : SnippetCache) (snippet : Snippet) :
    Except Failure (List Ir.Statement) × SnippetCache :=
  match cache.find? snippet.source with
  | some statements => (.ok statements, cache)
  | none =>
      match snippet.statements with
      | .ok statements => (.ok statements, ⟨(snippet.source, statements) :: cache.entries⟩)
      | .error failure => (.error failure, cache)

/-- Adds the statements of the snippets to a block, each source read at most once. -/
def appendTo (cache : SnippetCache) (target : Ir.Block) :
    List Snippet → (Ir.Block × Option Failure) × SnippetCache
  | [] => ((target, none), cache)
  | snippet :: rest =>
      match cache.statements snippet with
      | (.ok statements, cache) => appendTo cache (target.append statements) rest
      | (.error failure, cache) => ((target, some failure), cache)

end SnippetCache

end ContractAsm.Lowering

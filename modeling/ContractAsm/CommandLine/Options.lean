/-!
# Options

The arguments of the command line: flags and words that stand for flags, anywhere, and the
path of a file. Of several paths the last one counts. Other flags are passed over. Some
words are reserved and make the whole command line invalid.
-/

namespace ContractAsm.CommandLine

structure Options where
  verbose : Bool := false
  validate : Bool := false
  help : Bool := false
  json : Bool := false
deriving DecidableEq, Repr, Inhabited

inductive Argument where
  | verbose
  | validate
  | help
  | json
  | unknownFlag
  | path (path : String)
deriving DecidableEq, Repr

/-- The words that no argument may be. -/
def reservedWords : List String :=
  ["constructor", "toString", "valueOf", "hasOwnProperty", "isPrototypeOf",
    "propertyIsEnumerable", "toLocaleString", "__proto__", "__defineGetter__",
    "__defineSetter__", "__lookupGetter__", "__lookupSetter__"]

def Argument.ofText (text : String) : Argument :=
  if text = "--verbose" ∨ text = "-v" then .verbose
  else if text = "--validate" ∨ text = "validate" then .validate
  else if text = "--help" ∨ text = "-h" ∨ text = "help" then .help
  else if text = "--json" then .json
  else if text.toList.head? = some '-' then .unknownFlag
  else .path text

/-- The path and the options that the arguments ask for. -/
structure Invocation where
  path : Option String
  options : Options
deriving DecidableEq, Repr

namespace Invocation

def initial : Invocation := ⟨none, {}⟩

def add (invocation : Invocation) (argument : Argument) : Invocation :=
  match argument with
  | .verbose => { invocation with options.verbose := true }
  | .validate => { invocation with options.validate := true }
  | .help => { invocation with options.help := true }
  | .json => { invocation with options.json := true }
  | .unknownFlag => invocation
  | .path path => { invocation with path := some path }

/-- The invocation that the arguments describe, unless one of them is reserved. -/
def ofArguments? (arguments : List String) : Option Invocation :=
  if arguments.any reservedWords.contains then none
  else some ((arguments.map Argument.ofText).foldl add initial)

end Invocation

def usage : String :=
  "Usage: yulgen <ast.json> [options]\n\n" ++
  "Lower an elaborated contract AST to typed assembly IR.\n\n" ++
  "Options:\n" ++
  "  --json          Print the IR as JSON instead of text\n" ++
  "  --validate      Only validate the AST file\n" ++
  "  --verbose, -v   Log each contract and function as it is lowered\n" ++
  "  --help, -h      Show this help"

end ContractAsm.CommandLine

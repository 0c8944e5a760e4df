import ContractAsm.CommandLine.Files
import ContractAsm.CommandLine.Options
import ContractAsm.Json.Reader
import ContractAsm.Lowering.Contract
import ContractAsm.Lowering.Listing
import ContractAsm.Validation.Document

/-!
# Running the program

One run reads a source unit from a file, validates it, lowers its contracts and shows them.
It comes down to an exit code and the lines written, in order, to one of two streams.
-/

namespace ContractAsm.CommandLine

open Lowering (Failure Registry)
open Validation (Finding ValidSourceUnit)

inductive Stream where
  | output
  | error
deriving DecidableEq, Repr

/-- What a run leaves behind. A text is written with a line break after it. -/
structure Outcome where
  exitCode : Nat
  written : List (Stream × Text)
deriving DecidableEq, Repr

inductive RunFailure where
  | reservedWord
  | noPath
  | unreadable (path : String) (error : FileError)
  | noDocument (path : String)
  | invalid (path : String) (findings : List Finding)
  | incomparable
  | lowering (failure : Failure)
  | unprintable

/-- The text that tells about a failure. Two texts stand for others: where a type error ends the
program, the name of the error stands for what is printed of it, its message and the calls that led
to it; and "no strict JSON document" stands for what the reader has to say about a text. -/
def RunFailure.message : RunFailure → Text
  | reservedWord | incomparable => "TypeError"
  | noPath => usage
  | unreadable path error =>
      (Error.validation path ("cannot read file: " ++ error.message path) none).line
  | noDocument path => (Error.validation path "invalid JSON: no strict JSON document" none).line
  | invalid path findings => "Invalid AST in " ++ path ++ ":\n" ++ Finding.lines findings
  | lowering failure =>
      match failure.error? with
      | some error => error.line
      | none => "Error: Unexpected value: [object Object]"
  | unprintable => "Error: Unexpected value: [object Object]"

def load (read : String → Except FileError String) (path : String) :
    Except RunFailure ValidSourceUnit := do
  let text ← (read path).mapError (.unreadable path)
  let document ← match Json.read? text with
    | some document => .ok document
    | none => .error (.noDocument path)
  match Validation.sourceUnit document with
  | .valid (some source) => .ok source
  | .valid none => .error (.invalid path [])
  | .invalid findings => .error (.invalid path findings)
  | .failed => .error .incomparable

def show? (json : Bool) (contracts : List Lowering.LoweredContract) : Option Text :=
  if json then some (Lowering.Listing.document (contracts.map Lowering.LoweredContract.toJson))
  else Lowering.Listing.text? contracts

def failed (lines : List Text) (failure : RunFailure) : Outcome :=
  ⟨1, lines.map (fun line => (.error, line)) ++ [(.error, failure.message)]⟩

def succeeded (lines : List Text) (text : Text) : Outcome :=
  ⟨0, lines.map (fun line => (.error, line)) ++ [(.output, text)]⟩

def lower (options : Options) (source : ValidSourceUnit) : Outcome :=
  let lowered := Lowering.lowerUnit Registry.empty source.tree
  let lines := Lowering.shownLines options.verbose lowered.lines
  match lowered.result with
  | .error failure => failed lines (.lowering failure)
  | .ok contracts =>
      match show? options.json contracts with
      | some text => succeeded lines text
      | none => failed lines .unprintable

/-- A run with the given arguments. A missing path shows the usage as if it were asked for. -/
def run (read : String → Except FileError String) (arguments : List String) : Outcome :=
  match Invocation.ofArguments? arguments with
  | none => failed [] .reservedWord
  | some ⟨path, options⟩ =>
      if options.help then succeeded [] usage
      else
        match path with
        | none => ⟨1, [(.output, usage)]⟩
        | some path =>
            match load read path with
            | .error failure => failed [] failure
            | .ok source =>
                if options.validate then succeeded [] (path ++ ": valid")
                else lower options source

end ContractAsm.CommandLine

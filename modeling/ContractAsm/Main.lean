import ContractAsm.CommandLine.Run
import ContractAsm.Text.Utf8

/-!
# The program

Reads the file that the arguments name and writes what the run yields.
-/

namespace ContractAsm.Main

open CommandLine (FileError Invocation Outcome Stream)

/-- Reads a file, with the failures that a run tells apart. Any other failure to open a file
counts as a missing one. -/
def readFile (path : String) : IO (Except FileError String) := do
  try
    return .ok (Utf8.decode (← IO.FS.readBinFile path).toList)
  catch error =>
    match error with
    | .inappropriateType _ code _ =>
        return .error (if code = 20 ∨ code = -20 then .notDirectory else .isDirectory)
    | _ => return .error .missing

def write (outcome : Outcome) : IO Unit :=
  outcome.written.forM fun (stream, text) =>
    match stream with
    | .output => IO.println text
    | .error => IO.eprintln text

/-- A run in which only the file that the arguments name is read. -/
def perform (arguments : List String) : IO Outcome := do
  match (Invocation.ofArguments? arguments).bind Invocation.path with
  | some path =>
      let content ← readFile path
      return CommandLine.run (fun _ => content) arguments
  | none => return CommandLine.run (fun _ => .error .missing) arguments

end ContractAsm.Main

def main (arguments : List String) : IO UInt32 := do
  let outcome ← ContractAsm.Main.perform arguments
  ContractAsm.Main.write outcome
  return outcome.exitCode.toUInt32

import ContractAsm.Lowering.Failure

/-!
# Traced results

Lowering tells what it does line by line. The lines written before a failure are kept.
-/

namespace ContractAsm.Lowering

/-- A result or a failure, with the lines written on the way to it. -/
structure Traced (α : Type) where
  lines : List Text
  result : Except Failure α

namespace Traced

def ok {α : Type} (value : α) : Traced α := ⟨[], .ok value⟩

def ofExcept {α : Type} (result : Except Failure α) : Traced α := ⟨[], result⟩

def tell (line : Text) : Traced Unit := ⟨[line], .ok ()⟩

def bind {α β : Type} (first : Traced α) (next : α → Traced β) : Traced β :=
  match first.result with
  | .ok value => ⟨first.lines ++ (next value).lines, (next value).result⟩
  | .error failure => ⟨first.lines, .error failure⟩

instance : Monad Traced where
  pure := ok
  bind := bind

end Traced

def shownLine (line : Text) : Text := "[IRGenerate] " ++ line

/-- The lines that are shown: all of them or none. -/
def shownLines (verbose : Bool) (lines : List Text) : List Text :=
  if verbose then lines.map shownLine else []

end ContractAsm.Lowering

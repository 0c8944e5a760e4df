import ContractAsm.Json.Basic

/-!
# Locations

A location is a range in a named source. Reading assembly text yields ranges of offsets; a
location that comes with a document may hold any two numbers.
-/

namespace ContractAsm

/-- The range from `start` up to `stop`, in the source of that name if one is recorded. -/
structure Location where
  start : Json.Number
  stop : Json.Number
  source : Option Text
deriving DecidableEq, Repr, Inhabited

namespace Location

def ofOffsets (start stop : Nat) (source : Text) : Location := ⟨.ofNat start, .ofNat stop, some source⟩

/-- A range whose start lies after its end. -/
def isInverted (location : Location) : Bool := !location.start.le location.stop

theorem isInverted_ofOffsets (start stop : Nat) (source : Text) :
    (ofOffsets start stop source).isInverted = true ↔ stop < start := by
  simp [isInverted, ofOffsets, ← Bool.not_eq_true, Json.Number.le_ofNat]

def toJson (location : Location) : Json :=
  .ofPresent [
    ("start", some (.number location.start)),
    ("end", some (.number location.stop)),
    ("source", location.source.map .string)]

def ofJson? (document : Json) : Option Location := do
  let start ← (← document.member? "start").number?
  let stop ← (← document.member? "end").number?
  return ⟨start, stop, ← document.optionalAt? "source" Json.text?⟩

end Location

end ContractAsm

/-!
# Keccak-256

The sponge over the permutation of 1600 bits, with a rate of 136 bytes, the padding byte
`01` and an output of 32 bytes. A state is 25 lanes of 64 bits; lane `x + 5y` stands in
column `x` of row `y`.
-/

namespace ContractAsm.Keccak

abbrev State := Vector UInt64 25

abbrev Digest := Vector UInt8 32

/-! ## The permutation -/

def rotate (lane : UInt64) (count : Nat) : UInt64 :=
  (lane <<< (UInt64.ofNat count)) ||| (lane >>> (UInt64.ofNat (64 - count)))

def rotations : Vector Nat 25 :=
  #v[0, 1, 62, 28, 27,
     36, 44, 6, 55, 20,
     3, 10, 43, 25, 39,
     41, 45, 15, 21, 8,
     18, 2, 61, 56, 14]

def roundConstants : List UInt64 :=
  [0x0000000000000001, 0x0000000000008082, 0x800000000000808A, 0x8000000080008000,
   0x000000000000808B, 0x0000000080000001, 0x8000000080008081, 0x8000000000008009,
   0x000000000000008A, 0x0000000000000088, 0x0000000080008009, 0x000000008000000A,
   0x000000008000808B, 0x800000000000008B, 0x8000000000008089, 0x8000000000008003,
   0x8000000000008002, 0x8000000000000080, 0x000000000000800A, 0x800000008000000A,
   0x8000000080008081, 0x8000000000008080, 0x0000000080000001, 0x8000000080008008]

/-- Adds to every lane the parities of two columns next to its own. -/
def mixColumns (state : State) : State :=
  let parity : Vector UInt64 5 := Vector.ofFn fun x =>
    state[x] ^^^ state[x.val + 5] ^^^ state[x.val + 10] ^^^ state[x.val + 15] ^^^ state[x.val + 20]
  Vector.ofFn fun i =>
    state[i] ^^^ parity[(i.val + 4) % 5] ^^^ rotate (parity[(i.val + 1) % 5]) 1

/-- Rotates every lane and moves it to its new place. -/
def rotateLanes (state : State) : State :=
  Vector.ofFn fun i =>
    let x := i.val % 5
    let y := i.val / 5
    have : (x + 3 * y) % 5 + 5 * x < 25 := by omega
    rotate state[(x + 3 * y) % 5 + 5 * x] rotations[(x + 3 * y) % 5 + 5 * x]

/-- Combines every lane with the next two of its row. -/
def mixRows (state : State) : State :=
  Vector.ofFn fun i =>
    let x := i.val % 5
    let y := i.val / 5
    have first : (x + 1) % 5 + 5 * y < 25 := by omega
    have second : (x + 2) % 5 + 5 * y < 25 := by omega
    state[i] ^^^ (~~~state[(x + 1) % 5 + 5 * y] &&& state[(x + 2) % 5 + 5 * y])

def addConstant (state : State) (constant : UInt64) : State := state.set 0 (state[0] ^^^ constant)

def round (state : State) (constant : UInt64) : State :=
  addConstant (mixRows (rotateLanes (mixColumns state))) constant

def permute (state : State) : State := roundConstants.foldl round state

/-! ## The sponge -/

/-- Bytes that one step takes in. -/
def rate : Nat := 136

/-- A message filled up to whole steps: the byte `01`, zeros, and the last bit set. -/
def pad (message : List UInt8) : List UInt8 :=
  let missing := rate - message.length % rate
  if missing = 1 then message ++ [0x81]
  else message ++ 0x01 :: List.replicate (missing - 2) 0x00 ++ [0x80]

/-- The lane of eight bytes, the lowest one first. -/
def laneOf (bytes : List UInt8) : UInt64 := bytes.foldr (fun byte lane => lane <<< 8 ||| byte.toUInt64) 0

def absorbStep (state : State) (step : List UInt8) : State :=
  Vector.ofFn fun i => state[i] ^^^ laneOf ((step.drop (8 * i.val)).take 8)

def absorb (state : State) : Nat → List UInt8 → State
  | 0, _ => state
  | steps + 1, message =>
      absorb (permute (absorbStep state (message.take rate))) steps (message.drop rate)

def byteOf (lane : UInt64) (index : Nat) : UInt8 := (lane >>> (UInt64.ofNat (8 * index))).toUInt8

def digest (message : List UInt8) : Digest :=
  let padded := pad message
  let state := absorb (Vector.replicate 25 0) (padded.length / rate) padded
  Vector.ofFn fun i => byteOf state[i.val / 8] (i.val % 8)

/-! ## Text -/

def hexDigit (n : UInt8) : Char :=
  if n < 10 then Char.ofNat ('0'.toNat + n.toNat) else Char.ofNat ('a'.toNat + (n.toNat - 10))

def hexByte (byte : UInt8) : List Char := [hexDigit (byte >>> 4), hexDigit (byte &&& 15)]

/-- The digits of the hash of the UTF-8 bytes of a text. -/
def hexDigits (text : String) : List Char := (digest text.toUTF8.data.toList).toList.flatMap hexByte

theorem length_hexDigits (text : String) : (hexDigits text).length = 64 := by
  have constant (bytes : List UInt8) : (bytes.flatMap hexByte).length = 2 * bytes.length := by
    induction bytes with
    | nil => rfl
    | cons byte rest ih => simp [hexByte, ih]; omega
  simp [hexDigits, constant]

/-- The hash of a text in 64 hexadecimal digits. -/
def hex (text : String) : String := String.ofList (hexDigits text)

end ContractAsm.Keccak

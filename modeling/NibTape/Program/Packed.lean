import NibTape.Number.Decimal
import NibTape.Program.Bracket

/-!
# The packed file format

A file holds two instructions a byte, the high half first. Every byte string is a
program: unpacking never fails, and packing what was unpacked gives the bytes back.

Packing accepts numbers of any size and refuses the first that does not fit in half a
byte. The message names that number, unless it has too many digits to be written. An odd
number of instructions is filled up with one inert nibble.
-/

namespace NibTape.Packed

/-- The two instructions in one byte, the high half first. -/
def halves (b : UInt8) : List UInt8 := [b >>> 4, b &&& 0xF]

def nibbles (bytes : List UInt8) : List UInt8 := bytes.flatMap halves

def unpack (bytes : List UInt8) : Program := (nibbles bytes).toArray

/-- Names the first number that is no instruction, and where it stands. -/
structure BadInstruction where
  index : Nat
  value : Int
  deriving DecidableEq, Repr

def BadInstruction.message? (e : BadInstruction) : Option String :=
  (Decimal.text? e.value).map fun value =>
    s!"Instruction at {e.index} must be 0-0xF, got {value}"

def BadInstruction.message (e : BadInstruction) : String := e.message?.getD Decimal.tooLong

def fits (value : Int) : Bool := 0 ≤ value && value ≤ 0xF

/-- The first number of a list that does not fit, counting positions from `index`. -/
def firstBad? (index : Nat) : List Int → Option BadInstruction
  | [] => none
  | v :: rest => if fits v then firstBad? (index + 1) rest else some ⟨index, v⟩

/-- Joins halves two by two; a last half alone is filled up with the padding. -/
def join : List UInt8 → List UInt8
  | [] => []
  | [high] => [high <<< 4 ||| Opcode.padding]
  | high :: low :: rest => (high <<< 4 ||| low) :: join rest

def pack (values : List Int) : Except BadInstruction (List UInt8) :=
  match firstBad? 0 values with
  | some e => .error e
  | none => .ok (join (values.map fun v => UInt8.ofNat v.toNat))

@[simp] theorem nibbles_nil : nibbles [] = [] := rfl

@[simp] theorem nibbles_cons (b : UInt8) (bytes : List UInt8) :
    nibbles (b :: bytes) = (b >>> 4) :: (b &&& 0xF) :: nibbles bytes := rfl

theorem length_nibbles (bytes : List UInt8) : (nibbles bytes).length = 2 * bytes.length := by
  induction bytes with
  | nil => rfl
  | cons b rest ih => simp only [nibbles_cons, List.length_cons, ih]; omega

@[simp] theorem size_unpack (bytes : List UInt8) : (unpack bytes).size = 2 * bytes.length := by
  simp [unpack, length_nibbles]

/-- A byte is its two halves joined. -/
theorem halves_join (b : UInt8) : (b >>> 4) <<< 4 ||| (b &&& 0xF) = b := by
  have all : ∀ n : Fin 256,
      (UInt8.ofFin n >>> 4) <<< 4 ||| (UInt8.ofFin n &&& 0xF) = UInt8.ofFin n := by
    decide +kernel
  simpa using all b.toFin

theorem join_nibbles (bytes : List UInt8) : join (nibbles bytes) = bytes := by
  induction bytes with
  | nil => rfl
  | cons b rest ih =>
    simp [join, ih, halves_join]

end NibTape.Packed

/-!
# The eight instructions

A program is a sequence of bytes, one instruction a byte. The bytes 0 to 7 are the
eight opcodes below; every other byte is inert: it takes a step and does nothing.
The numbering is part of the packed file format and cannot be changed freely.

Nothing here says what an instruction does to a machine; see `NibTape.Machine`.
-/

namespace NibTape

/-- One instruction of a program, in the order of its number. -/
inductive Opcode where
  | write
  | loopEnd
  | incrVal
  | incrPtr
  | loopStart
  | decrVal
  | decrPtr
  | read
  deriving DecidableEq, Repr, Inhabited

namespace Opcode

/-- The number of an opcode in a program. -/
def byte : Opcode → UInt8
  | write => 0
  | loopEnd => 1
  | incrVal => 2
  | incrPtr => 3
  | loopStart => 4
  | decrVal => 5
  | decrPtr => 6
  | read => 7

/-- The opcode with a given number; numbers above 7 have none. -/
def ofNat? : Nat → Option Opcode
  | 0 => some write
  | 1 => some loopEnd
  | 2 => some incrVal
  | 3 => some incrPtr
  | 4 => some loopStart
  | 5 => some decrVal
  | 6 => some decrPtr
  | 7 => some read
  | _ => none

/-- The opcode that a program byte stands for, or `none` for an inert byte. -/
def ofByte? (b : UInt8) : Option Opcode := ofNat? b.toNat

def ofInt? : Int → Option Opcode
  | .ofNat n => ofNat? n
  | .negSucc _ => none

/-- The inert nibble that fills the last byte of a program of odd length. -/
def padding : UInt8 := 8

def all : List Opcode :=
  [write, loopEnd, incrVal, incrPtr, loopStart, decrVal, decrPtr, read]

def name : Opcode → String
  | write => "WRITE"
  | loopEnd => "LOOP_END"
  | incrVal => "INCR_VAL"
  | incrPtr => "INCR_PTR"
  | loopStart => "LOOP_START"
  | decrVal => "DECR_VAL"
  | decrPtr => "DECR_PTR"
  | read => "READ"

@[simp] theorem ofByte?_byte (op : Opcode) : ofByte? op.byte = some op := by
  cases op <;> rfl

@[simp] theorem ofByte?_padding : ofByte? padding = none := rfl

/-- A byte stands for an opcode only if it is that opcode's number. -/
theorem byte_of_ofByte? {b : UInt8} {op : Opcode} (h : ofByte? b = some op) :
    b = op.byte := by
  apply UInt8.toNat_inj.mp
  unfold ofByte? at h
  generalize b.toNat = n at h ⊢
  unfold ofNat? at h
  split at h <;> first | (injection h with h; subst h; rfl) | cases h

end Opcode

def upperHex (n : Nat) : String :=
  String.ofList ((Nat.toDigits 16 n).map Char.toUpper)

/-- The name of any number in a listing: an inert number shows its value in base sixteen. -/
def instructionName (value : Int) : String :=
  match Opcode.ofInt? value with
  | some op => op.name
  | none => "NOP(0x" ++ (if value < 0 then "-" else "") ++ upperHex value.natAbs ++ ")"

end NibTape

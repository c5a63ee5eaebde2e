import NibTape.Program.Packed

/-!
# Programs as text

Each opcode has a one-character symbol. Reading a text keeps the symbols and takes
every other character for a comment; writing a program leaves its inert bytes out.

The two directions undo each other only up to comments, inert bytes and the padding of
an odd number of instructions.
-/

namespace NibTape

def Opcode.symbol : Opcode → Char
  | write => '.'
  | loopEnd => ']'
  | incrVal => '+'
  | incrPtr => '>'
  | loopStart => '['
  | decrVal => '-'
  | decrPtr => '<'
  | read => ','

def Opcode.ofSymbol? : Char → Option Opcode
  | '.' => some write
  | ']' => some loopEnd
  | '+' => some incrVal
  | '>' => some incrPtr
  | '[' => some loopStart
  | '-' => some decrVal
  | '<' => some decrPtr
  | ',' => some read
  | _ => none

@[simp] theorem Opcode.ofSymbol?_symbol (op : Opcode) : ofSymbol? op.symbol = some op := by
  cases op <;> rfl

namespace Mnemonic

def opcodes (text : List Char) : List Opcode := text.filterMap Opcode.ofSymbol?

/-- The program that a text spells, without padding. -/
def program (text : List Char) : Program := ((opcodes text).map Opcode.byte).toArray

def assemble (text : List Char) : List UInt8 :=
  Packed.join ((opcodes text).map Opcode.byte)

/-- The text of a packed program, without its inert nibbles. -/
def disassemble (bytes : List UInt8) : List Char :=
  ((Packed.nibbles bytes).filterMap Opcode.ofByte?).map Opcode.symbol

@[simp] theorem opcodes_map_symbol (ops : List Opcode) :
    opcodes (ops.map Opcode.symbol) = ops := by
  have spelled : Opcode.ofSymbol? ∘ Opcode.symbol = some := funext Opcode.ofSymbol?_symbol
  rw [opcodes, List.filterMap_map, spelled, List.filterMap_some]

end Mnemonic

end NibTape

import NibTape.Fuzz.Choice
import NibTape.Program.Packed

/-!
# Random programs

Three generators make packed programs. The first makes bytes without any structure. The
second builds instruction sequences in which every loop that is opened is also closed,
its body ending with a decrement, with a stray loop end now and then. The third leaves it
to chance which of the two is used.
-/

namespace NibTape.Fuzz

open NibTape.Random

/-- A way of making random programs. -/
inductive Generator where
  | random
  | structured
  | mixed
  deriving DecidableEq, Repr

namespace Generator

def all : List Generator := [random, structured, mixed]

def name : Generator → String
  | random => "random"
  | structured => "structured"
  | mixed => "mixed"

/-- The generator of a name; an unknown name stands for the mixed one. -/
def ofName (n : String) : Generator := (all.find? fun g => g.name == n).getD mixed

/-- The largest number of bytes that the random generator makes by default. -/
def maxLength : Int := 16

/-- The number of instructions that the structured generator aims at by default. -/
def maxInstructions : Int := 24

/-- How deep loops are nested by default. -/
def maxDepth : Int := 2

/-- Bytes without structure, at least one and at most `maxLength`. -/
def randomBytes (maxLength : Int) : Draw (List UInt8) := do
  let length ← Draw.oneTo maxLength
  let values ← Draw.times (Draw.below 256) length
  return values.map UInt8.ofNat

/-- Goes on with a sequence of instructions until it has `budget` of them, nesting loops
at most `depth` deep. A round adds nothing if a loop is chosen that would be too deep. -/
def extend : (rounds budget depth : Nat) → (made : Array Opcode) → Draw (Array Opcode)
  | 0, _, _, _ => throw .outOfWords
  | rounds + 1, budget, depth, made =>
    if budget ≤ made.size then return made
    else do
      let choice ← Choice.draw
      match choice with
      | .loop =>
        match depth with
        | 0 => extend rounds budget 0 made
        | inside + 1 =>
          let innerBudget ← Draw.below ((budget - made.size) / 2 + 1)
          let body ← extend rounds innerBudget inside #[]
          extend rounds budget (inside + 1)
            (made.push .loopStart ++ body ++ #[.decrVal, .loopEnd])
      | .unmatchedEnd => extend rounds budget depth (made.push .loopEnd)
      | .incrPtr => extend rounds budget depth (made.push .incrPtr)
      | .decrPtr => extend rounds budget depth (made.push .decrPtr)
      | .incrVal => extend rounds budget depth (made.push .incrVal)
      | .decrVal => extend rounds budget depth (made.push .decrVal)
      | .write => extend rounds budget depth (made.push .write)
      | .read => extend rounds budget depth (made.push .read)

/-- A structured sequence of about `budget` instructions. -/
def instructions (budget depth : Nat) : Draw (List Opcode) := fun s =>
  (fun (made, s) => (made.toList, s)) <$>
    extend ((budget + depth + 1) * s.patience) budget depth #[] s

def structuredProgram (maxInstructions maxDepth : Int) : Draw (List UInt8) := do
  let budget ← Draw.oneTo maxInstructions
  let ops ← instructions budget maxDepth.toNat
  return Packed.join (ops.map Opcode.byte)

/-- Whether a fraction of one, over `2 ^ 53`, lies below three tenths as a double. -/
def prefersRandom (k : Nat) : Bool := 2 * k < 5404319552844595

def mixedProgram : Draw (List UInt8) := do
  let k ← Draw.fraction
  if prefersRandom k then randomBytes maxLength
  else structuredProgram maxInstructions maxDepth

/-- A packed program with the given limits; the mixed generator has limits of its own. -/
def draw (g : Generator) (maxLength maxInstructions maxDepth : Int) : Draw (List UInt8) :=
  match g with
  | random => randomBytes maxLength
  | structured => structuredProgram maxInstructions maxDepth
  | mixed => mixedProgram

def drawDefault (g : Generator) : Draw (List UInt8) :=
  g.draw maxLength maxInstructions maxDepth

end Generator

end NibTape.Fuzz

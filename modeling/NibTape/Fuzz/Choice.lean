import NibTape.Number.Binary64
import NibTape.Opcode
import NibTape.Random.Draw

/-!
# Weighted instruction choices

A generated program is built from eight kinds of pieces, each with a weight in percent.
A kind is picked by comparing a random fraction of one hundred, rounded to double
precision, with the running totals of the weights.
-/

namespace NibTape.Fuzz

open NibTape.Random

/-- A kind of piece of a generated program. -/
inductive Choice where
  | incrPtr
  | decrPtr
  | incrVal
  | decrVal
  | write
  | read
  | loop
  | unmatchedEnd
  deriving DecidableEq, Repr

namespace Choice

def all : List Choice :=
  [incrPtr, decrPtr, incrVal, decrVal, write, read, loop, unmatchedEnd]

def label : Choice → String
  | incrPtr => "incr_ptr"
  | decrPtr => "decr_ptr"
  | incrVal => "incr_val"
  | decrVal => "decr_val"
  | write => "write"
  | read => "read"
  | loop => "loop"
  | unmatchedEnd => "unmatched_end"

def weight : Choice → Nat
  | incrPtr => 18
  | decrPtr => 18
  | incrVal => 20
  | decrVal => 10
  | write => 12
  | read => 7
  | loop => 12
  | unmatchedEnd => 3

/-- The first kind whose running total exceeds a number, or the last kind. -/
def exceeding (x : Binary64) : (total : Nat) → List Choice → Choice
  | _, [] => unmatchedEnd
  | total, c :: rest =>
    if x.ltNat (total + c.weight) then c else exceeding x (total + c.weight) rest

/-- The kind that a fraction of one, over `2 ^ 53`, stands for. -/
def ofFraction (k : Nat) : Choice :=
  exceeding (.ofRatio false (k * 100) (Nat.pow 2 53)) 0 all

def draw : Draw Choice := do
  let k ← Draw.fraction
  return ofFraction k

end Choice

end NibTape.Fuzz

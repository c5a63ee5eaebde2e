import NibTape.Number.Decimal

/-!
# Why a run stops early

The first four causes belong to the language: an access outside the tape, the two
bracket errors and an exhausted step budget. The last three describe a machine that was
set up by hand in a way no run leaves it; programs alone do not reach them.

Each cause carries what its message shows and what a caller may want to inspect. A step budget
may be any integer, and one with too many digits cannot be shown. The run stops there all the
same, but the cause cannot be told as what it is.
-/

namespace NibTape

/-- The cause that ends a run at an instruction. -/
inductive Fault where
  /-- An instruction acts on a cell outside the tape. -/
  | outOfBounds (ip cursor length : Nat)
  /-- A loop end with no open loop. -/
  | unexpectedLoopEnd (ip : Nat)
  /-- A loop to be skipped has no end. -/
  | unterminatedLoop (ip : Nat)
  /-- The step budget is used up. -/
  | stepLimit (ip : Nat) (limit : Int)
  /-- A single step was asked for past the last instruction. -/
  | pastEnd
  /-- A cell was used without the check that it exists. -/
  | missingCell
  /-- A position was taken from an empty loop stack. -/
  | noOpenLoop
  deriving DecidableEq, Repr

namespace Fault

/-- The sentence that tells a user what went wrong. -/
def message? : Fault → Option String
  | outOfBounds ip _ _ => some s!"Data index out of bounds at input index '{ip}'"
  | unexpectedLoopEnd ip => some s!"Unexpected end of loop at input index '{ip}'"
  | unterminatedLoop ip => some s!"Expected end of loop started at input index '{ip}'"
  | stepLimit ip limit =>
    (Decimal.text? limit).map fun n => s!"Step limit of {n} exceeded at input index '{ip}'"
  | pastEnd => some "index out of range"
  | missingCell => some "bytearray index out of range"
  | noOpenLoop => some "pop from empty loop stack"

def message (f : Fault) : String := f.message?.getD Decimal.tooLong

/-- The name of the kind of fault in reports; causes outside the language and causes that
cannot be told have none. -/
def kind? : Fault → Option String
  | outOfBounds .. => some "DataIndexOutOfBounds"
  | unexpectedLoopEnd _ => some "UnexpectedLoopEnd"
  | unterminatedLoop _ => some "UnterminatedLoop"
  | stepLimit _ limit => if Decimal.isWritable limit then some "StepLimitExceeded" else none
  | pastEnd | missingCell | noOpenLoop => none

end Fault

end NibTape

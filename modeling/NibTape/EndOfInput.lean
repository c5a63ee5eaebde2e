/-!
# Reading past the end of the input

When the input is used up, a read instruction stores a fixed byte or leaves its cell
alone. The choice is made once for a run.
-/

namespace NibTape

/-- What a read stores once the input is used up. -/
inductive EndOfInput where
  | allOnes
  | zero
  | unchanged
  deriving DecidableEq, Repr, Inhabited

namespace EndOfInput

def all : List EndOfInput := [allOnes, zero, unchanged]

def label : EndOfInput → String
  | allOnes => "ff"
  | zero => "zero"
  | unchanged => "unchanged"

def name : EndOfInput → String
  | allOnes => "ALL_ONES"
  | zero => "ZERO"
  | unchanged => "UNCHANGED"

def ofLabel? (word : String) : Option EndOfInput := all.find? fun e => e.label == word

/-- The byte to store, or `none` if the cell keeps its value. -/
def fill? : EndOfInput → Option UInt8
  | allOnes => some 0xFF
  | zero => some 0
  | unchanged => none

@[simp] theorem ofLabel?_label (e : EndOfInput) : ofLabel? e.label = some e := by
  cases e <;> decide

end EndOfInput

end NibTape

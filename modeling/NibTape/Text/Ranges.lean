/-!
# Sets of characters given by ranges

A character property is kept as a table of ranges of code points, both ends included.
The tables that use this are those of Unicode 14.
-/

namespace NibTape.Text

/-- Ranges of code points, both ends included. -/
abbrev Ranges := List (Nat × Nat)

def Ranges.has (table : Ranges) (code : Nat) : Bool :=
  table.any fun (low, high) => low ≤ code && code ≤ high

end NibTape.Text

import Std.Data.TreeMap

/-!
# The growable tape

A tape is a finite row of byte cells, all zero at first, with a cursor that may stand
outside of it. Its length is a whole number of steps: moving the cursor right onto the
first index past the end adds another step of zero cells.

Only cells that were written are stored; every other cell below the length is zero.
The view of a tape is `cell?`, and the lemmas below say what each operation does to it.
Nothing here decides whether a move left of the first cell is allowed; see
`NibTape.Policy`.
-/

namespace NibTape

/-- A row of `length` byte cells with a cursor. -/
structure Tape where
  /-- The number of cells added whenever the tape grows. -/
  stepSize : Nat
  /-- The number of cells. -/
  length : Nat
  /-- The index of the cell that instructions act on. -/
  cursor : Nat
  /-- The values of the cells that were written; all others are zero. -/
  written : Std.TreeMap Nat UInt8

namespace Tape

/-- The number of cursor positions: moves are taken modulo this number. -/
def span : Nat := 4294967296

/-- A tape of one step of zero cells, with the cursor on the first. -/
def blank (stepSize : Nat) : Tape :=
  { stepSize, length := stepSize, cursor := 0, written := ∅ }

/-- The value at an index, were the tape endless. -/
def value (t : Tape) (i : Nat) : UInt8 := t.written.getD i 0

/-- The cell at an index, or `none` outside the tape. -/
def cell? (t : Tape) (i : Nat) : Option UInt8 :=
  if i < t.length then some (t.value i) else none

def inBounds (t : Tape) : Bool := t.cursor < t.length

def current? (t : Tape) : Option UInt8 := t.cell? t.cursor

def grow (t : Tape) : Tape := { t with length := t.length + t.stepSize }

/-- Puts the cursor on an index, which may lie outside the tape. -/
def setCursor (t : Tape) (i : Nat) : Tape := { t with cursor := i }

/-- Whether a move right ends on the first index past the last cell. -/
def growsOnAdvance (t : Tape) : Bool := (t.cursor + 1) % span == t.length

/-- Moves right and grows the tape when the cursor reaches its end. -/
def advance (t : Tape) : Tape :=
  let moved := t.setCursor ((t.cursor + 1) % span)
  if t.growsOnAdvance then moved.grow else moved

/-- Moves left; from the first cell the cursor wraps to the last position. -/
def retreat (t : Tape) : Tape :=
  t.setCursor (if t.cursor = 0 then span - 1 else (t.cursor - 1) % span)

/-- Stores a value in the cell under the cursor, or `none` if there is no such cell. -/
def put? (t : Tape) (v : UInt8) : Option Tape :=
  if t.inBounds then some { t with written := t.written.insert t.cursor v } else none

/-- Stores what a number leaves modulo 256. -/
def putInt? (t : Tape) (v : Int) : Option Tape := t.put? (UInt8.ofNat (v % 256).toNat)

def increment? (t : Tape) : Option Tape := t.put? (t.value t.cursor + 1)

def decrement? (t : Tape) : Option Tape := t.put? (t.value t.cursor - 1)

def snapshot (t : Tape) : List UInt8 := (List.range t.length).map t.value

/-- One more than the last index that holds a value other than zero. -/
def extent (t : Tape) : Nat :=
  t.written.foldl (fun top i v => if v = 0 then top else i + 1) 0

/-- The cells up to the last one that is not zero. -/
def content (t : Tape) : List UInt8 := (List.range t.extent).map t.value

@[simp] theorem value_blank (stepSize i : Nat) : (blank stepSize).value i = 0 := by
  simp [blank, value]

@[simp] theorem inBounds_iff (t : Tape) : t.inBounds = true ↔ t.cursor < t.length := by
  simp [inBounds]

@[simp] theorem value_grow (t : Tape) (i : Nat) : t.grow.value i = t.value i := rfl

@[simp] theorem length_grow (t : Tape) : t.grow.length = t.length + t.stepSize := rfl

@[simp] theorem cursor_grow (t : Tape) : t.grow.cursor = t.cursor := rfl

@[simp] theorem value_setCursor (t : Tape) (i j : Nat) :
    (t.setCursor i).value j = t.value j := rfl

@[simp] theorem length_setCursor (t : Tape) (i : Nat) : (t.setCursor i).length = t.length := rfl

@[simp] theorem cursor_setCursor (t : Tape) (i : Nat) : (t.setCursor i).cursor = i := rfl

@[simp] theorem value_advance (t : Tape) (i : Nat) : t.advance.value i = t.value i := by
  unfold advance
  dsimp only
  split <;> simp

@[simp] theorem cursor_advance (t : Tape) : t.advance.cursor = (t.cursor + 1) % span := by
  unfold advance
  dsimp only
  split <;> simp

@[simp] theorem stepSize_advance (t : Tape) : t.advance.stepSize = t.stepSize := by
  unfold advance
  dsimp only
  split <;> rfl

theorem length_advance (t : Tape) :
    t.advance.length = if t.growsOnAdvance then t.length + t.stepSize else t.length := by
  unfold advance
  dsimp only
  split <;> simp [setCursor]

@[simp] theorem length_retreat (t : Tape) : t.retreat.length = t.length := rfl

@[simp] theorem cursor_retreat (t : Tape) :
    t.retreat.cursor = if t.cursor = 0 then span - 1 else (t.cursor - 1) % span := rfl

end Tape

end NibTape

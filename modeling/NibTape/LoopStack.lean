import NibTape.Fault

/-!
# The loop stack

The stack holds the positions of the loop starts that are open, the innermost on top.
It has a capacity of its own, counted in slots: a push that finds the stack full adds
one step of slots first. A pop never gives slots back. To pop an empty stack is a fault.

The step size may be any integer. The capacity is compared for equality only, so with
a step size below one the depth can pass it.
-/

namespace NibTape

/-- Saved positions, bottom first, with a slot count. -/
structure LoopStack (α : Type) where
  /-- The number of slots added by a push onto a full stack. -/
  stepSize : Int
  /-- The number of slots. -/
  capacity : Int
  /-- The saved positions, bottom first. -/
  positions : Array α
  deriving DecidableEq, Repr

namespace LoopStack

variable {α : Type}

/-- A stack of one step of slots, none in use. -/
def empty (stepSize : Int) : LoopStack α :=
  { stepSize, capacity := stepSize, positions := #[] }

def depth (s : LoopStack α) : Nat := s.positions.size

def isFull (s : LoopStack α) : Bool := (s.depth : Int) == s.capacity

/-- Saves a position on top, adding slots first if all are in use. -/
def push (s : LoopStack α) (a : α) : LoopStack α :=
  { s with
    capacity := if s.isFull then s.capacity + s.stepSize else s.capacity
    positions := s.positions.push a }

def pushAll (s : LoopStack α) (as : List α) : LoopStack α := as.foldl push s

/-- The position on top and the stack without it, or `none` of an empty stack. -/
def pop? (s : LoopStack α) : Option (α × LoopStack α) :=
  match s.positions.back? with
  | none => none
  | some a => some (a, { s with positions := s.positions.pop })

/-- Takes the position on top; an empty stack has none to give. -/
def pop (s : LoopStack α) : Except Fault (α × LoopStack α) :=
  match s.pop? with
  | some popped => .ok popped
  | none => .error .noOpenLoop

def toList (s : LoopStack α) : List α := s.positions.toList

@[simp] theorem toList_push (s : LoopStack α) (a : α) : (s.push a).toList = s.toList ++ [a] := by
  simp [toList, push]

@[simp] theorem length_toList (s : LoopStack α) : s.toList.length = s.depth := by
  simp [toList, depth]

@[simp] theorem stepSize_push (s : LoopStack α) (a : α) :
    (s.push a).stepSize = s.stepSize := rfl

theorem capacity_push (s : LoopStack α) (a : α) :
    (s.push a).capacity = if s.isFull then s.capacity + s.stepSize else s.capacity := rfl

@[simp] theorem pop?_eq_none_iff (s : LoopStack α) : s.pop? = none ↔ s.toList = [] := by
  unfold pop?
  cases h : s.positions.back? with
  | none => simpa [toList] using h
  | some a =>
    simp only [toList, reduceCtorEq, false_iff]
    intro hnil
    simp [Array.back?, Array.toList_eq_nil_iff.mp hnil] at h

/-- What a pop gives is the top, and what it leaves is the rest. -/
theorem pop?_eq_some {s t : LoopStack α} {a : α} (h : s.pop? = some (a, t)) :
    s.toList = t.toList ++ [a] ∧ t.capacity = s.capacity ∧ t.stepSize = s.stepSize := by
  unfold pop? at h
  cases hb : s.positions.back? with
  | none => simp [hb] at h
  | some b =>
    simp only [hb, Option.some.injEq, Prod.mk.injEq] at h
    obtain ⟨rfl, rfl⟩ := h
    refine ⟨?_, rfl, rfl⟩
    obtain ⟨xs, hxs⟩ := Array.back?_eq_some_iff.mp hb
    simp [toList, hxs]

end LoopStack

end NibTape

import NibTape.Fault
import NibTape.LoopStack
import NibTape.Tape

/-!
# The two bounds policies

A policy decides three things: what a move left of the first cell does, whether an
access outside the tape is caught, and what a loop end without an open loop means.

The permissive policy clamps and ignores. Its accesses are not checked, because its
cursor cannot leave the tape. The strict policy lets the cursor wrap and reports the
next access, and it reports a loop end that closes nothing.
-/

namespace NibTape

/-- How a machine treats positions and loop ends that do not fit. -/
inductive Policy where
  | permissive
  | strict
  deriving DecidableEq, Repr, Inhabited

namespace Policy

def name : Policy → String
  | permissive => "permissive"
  | strict => "strict"

def all : List Policy := [permissive, strict]

def ofName? (n : String) : Option Policy := all.find? fun p => p.name == n

def unknownMessage (n : String) : String :=
  s!"Unknown policy: {n}. Available: " ++ ", ".intercalate (all.map name)

def retreat : Policy → Tape → Tape
  | permissive, t => if 0 < t.cursor then t.setCursor (t.cursor - 1) else t
  | strict, t => t.retreat

/-- The fault of an access by the instruction at `ip`, if the policy objects to it. -/
def accessFault? : Policy → Tape → (ip : Nat) → Option Fault
  | permissive, _, _ => none
  | strict, t, ip => if t.inBounds then none else some (.outOfBounds ip t.cursor t.length)

/-- What a loop end at `ip` does: the position to go back to with the stack below it, or
nothing if the loop end is ignored. -/
def leaveLoop {α : Type} (p : Policy) (s : LoopStack α) (ip : Nat) :
    Except Fault (Option (α × LoopStack α)) :=
  match p, s.pop? with
  | _, some popped => .ok (some popped)
  | permissive, none => .ok none
  | strict, none => .error (.unexpectedLoopEnd ip)

@[simp] theorem accessFault?_permissive (t : Tape) (ip : Nat) :
    accessFault? permissive t ip = none := rfl

theorem accessFault?_strict (t : Tape) (ip : Nat) :
    accessFault? strict t ip =
      if t.cursor < t.length then none else some (.outOfBounds ip t.cursor t.length) := by
  simp [accessFault?]

/-- Away from the first cell the two policies move left alike. -/
theorem retreat_of_pos (p : Policy) {t : Tape} (h : 0 < t.cursor) (hs : t.cursor ≤ Tape.span) :
    p.retreat t = t.setCursor (t.cursor - 1) := by
  cases p with
  | permissive => simp [retreat, h]
  | strict =>
    have hz : t.cursor ≠ 0 := by omega
    have hm : (t.cursor - 1) % Tape.span = t.cursor - 1 := Nat.mod_eq_of_lt (by omega)
    simp [retreat, Tape.retreat, hz, hm]

end Policy

end NibTape

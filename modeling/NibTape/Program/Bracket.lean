import NibTape.Opcode

/-!
# Matching loop brackets

A loop start is closed by the first loop end after it that no loop start in between
claims. The match is found by one forward scan that counts the loops opened on the
way, so it depends on the program text alone and never on a run.

Positions may also be given from the end of the program, as negative numbers; a scan
that begins there goes on into the program from its first instruction.
-/

namespace NibTape

/-- A program: one instruction a byte. -/
abbrev Program := Array UInt8

namespace Program

/-- The opcode at a position, or `none` at an inert byte and past the end. -/
def opcode? (p : Program) (i : Nat) : Option Opcode :=
  p[i]?.bind Opcode.ofByte?

/-- Looks at the next `remaining` instructions from position `i` for the loop end that
closes the loop around `depth` others. -/
def closeFrom? (p : Program) : (remaining i depth : Nat) → Option Nat
  | 0, _, _ => none
  | remaining + 1, i, depth =>
    match p.opcode? i with
    | some .loopStart => closeFrom? p remaining (i + 1) (depth + 1)
    | some .loopEnd =>
      match depth with
      | 0 => some i
      | depth + 1 => closeFrom? p remaining (i + 1) depth
    | _ => closeFrom? p remaining (i + 1) depth

/-- The position of the loop end that matches a loop start at `start`, or `none` if the
program ends before the loop is closed. -/
def loopEnd? (p : Program) (start : Nat) : Option Nat :=
  p.closeFrom? (p.size - (start + 1)) (start + 1) 0

/-- As `loopEnd?`, for a start that may also be counted from the end. The answer is
`none` if the scan would begin before the first instruction; within it, the answer is
the position as the scan counts it, or `none` if the loop stays open. -/
def loopEndFrom? (p : Program) (start : Int) : Option (Option Int) :=
  let first := start + 1
  if 0 ≤ first then
    some ((p.closeFrom? (p.size - first.toNat) first.toNat 0).map Int.ofNat)
  else if first < -(p.size : Int) then
    none
  else
    let tail := p.extract (p.size - first.natAbs) p.size
    let q : Program := tail ++ p
    some ((q.closeFrom? q.size 0 0).map fun i => (i : Int) + first)

/-- The matching loop end of every position, as if a loop started there. -/
def loopEnds (p : Program) : List (Option Nat) :=
  (List.range p.size).map p.loopEnd?

end Program

end NibTape

import NibTape.Machine

/-!
# Runs and step budgets

A run repeats single steps until the program ends, an instruction faults or a given
number of steps has been made. What is left of a run that was only interrupted is its
state, so it can go on from there.

A budget limits the number of all steps since the start, not of the steps of one call;
it may be any integer. A run without a budget is cut off after `fuel` steps, and that
answer is none of the endings of the program.
-/

namespace NibTape

/-- How far a run has come. -/
inductive Progress where
  | finished (s : State)
  | faulted (h : Halt)
  | running (s : State)

namespace Machine

/-- Makes at most `n` steps. -/
def proceed (m : Machine) : (n : Nat) → State → Progress
  | 0, s => if m.finished s then .finished s else .running s
  | n + 1, s =>
    if m.finished s then .finished s
    else
      match m.step s with
      | .ok s => proceed m n s
      | .error h => .faulted h

/-- Passes on what was written, as the last thing a run does. -/
def settle : Except Halt State → Except Halt State
  | .ok s => .ok (s.emit .flushed)
  | .error h => .error { h with state := h.state.emit .flushed }

/-- Runs until the program ends, an instruction faults or `limit` steps have been made
since the start. -/
def runWithin (m : Machine) (limit : Int) (s : State) : Except Halt State :=
  settle <|
    match m.proceed (limit - s.steps).toNat s with
    | .finished s => .ok s
    | .faulted h => .error h
    | .running s => .error ⟨.stepLimit s.ip limit, s⟩

/-- Runs until the program ends or an instruction faults; `none` if neither happens
within `fuel` steps. -/
def runToEnd? (m : Machine) (fuel : Nat) (s : State) : Option (Except Halt State) :=
  match m.proceed fuel s with
  | .finished s => some (settle (.ok s))
  | .faulted h => some (settle (.error h))
  | .running _ => none

def run? (m : Machine) (fuel : Nat) (limit : Option Int) (s : State) :
    Option (Except Halt State) :=
  match limit with
  | some limit => some (m.runWithin limit s)
  | none => m.runToEnd? fuel s

/-- Whether the next step asks for an input byte that is not at hand. -/
def awaitsInput (m : Machine) (s : State) : Bool :=
  m.program.opcode? s.ip == some .read && (m.denied? .read s).isNone && s.unread.isEmpty

/-- What `trace` shows of a state. -/
structure Glimpse where
  ip : Nat
  steps : Nat
  cursor : Nat
  cell : Option UInt8
  length : Nat
  depth : Nat
  deriving DecidableEq, Repr

def glimpse (s : State) : Glimpse :=
  { ip := s.ip, steps := s.steps, cursor := s.tape.cursor, cell := s.tape.current?,
    length := s.tape.length, depth := s.loops.depth }

/-- Makes at most `n` steps, recording the state after each; the records come latest
first, before those already in `seen`. -/
def traceFrom (m : Machine) : (n : Nat) → List Glimpse → State →
    List Glimpse × Except Halt State
  | 0, seen, s => (seen, .ok s)
  | n + 1, seen, s =>
    if m.finished s then (seen, .ok s)
    else
      match m.step s with
      | .ok s => traceFrom m n (glimpse s :: seen) s
      | .error h => (seen, .error h)

/-- Makes at most `n` steps and lists the states after each in order. -/
def trace (m : Machine) (n : Nat) (s : State) : List Glimpse × Except Halt State :=
  let (seen, last) := m.traceFrom n [] s
  (seen.reverse, last)

theorem proceed_finished {m : Machine} {s : State} (h : m.finished s = true) (n : Nat) :
    m.proceed n s = .finished s := by
  cases n <;> simp [proceed, h]

theorem proceed_succ {m : Machine} {s : State} (h : m.finished s = false) (n : Nat) :
    m.proceed (n + 1) s =
      match m.step s with
      | .ok s => m.proceed n s
      | .error h => .faulted h := by
  simp [proceed, h]

end Machine

end NibTape

import NibTape.EndOfInput
import NibTape.Policy
import NibTape.Program.Bracket

/-!
# The machine and one step of it

A machine is what stays fixed during a run: the program, the bounds policy and the rule
for the end of the input. Everything that changes is its state.

Executing the instruction under the instruction pointer gives the next state, or a fault
together with the state it leaves behind. Reads and writes are recorded as events in the
order in which the outside world sees them; the output is what was written.

The policy is asked before a cell is used. A machine put together by hand can still reach
a cell that does not exist; that fault has its own cause, and an unchecked read then has
already taken its input byte.
-/

namespace NibTape

/-- One exchange with the outside world. -/
inductive Event where
  /-- A byte goes to the output. -/
  | wrote (b : UInt8)
  /-- Output written so far is passed on. -/
  | flushed
  /-- A byte is asked for; there is none at the end of the input. -/
  | received (b : Option UInt8)
  deriving DecidableEq, Repr

/-- A container that had to grow, with its new size. -/
inductive Growth where
  | tape (cells : Nat)
  | loops (slots : Int)
  deriving DecidableEq, Repr

/-- What is fixed for a run. -/
structure Machine where
  program : Program
  policy : Policy
  eof : EndOfInput

/-- What a run changes. -/
structure State where
  /-- The position of the next instruction. -/
  ip : Nat
  /-- The number of instructions executed. -/
  steps : Nat
  tape : Tape
  loops : LoopStack Nat
  /-- The input not read yet. -/
  unread : List UInt8
  /-- What was exchanged with the outside world, the latest first. -/
  eventsRev : List Event
  /-- How tape and loop stack grew, the latest first. -/
  growthsRev : List Growth

/-- A fault and the state in which it leaves the machine. -/
structure Halt where
  fault : Fault
  state : State

namespace State

def initial (stepSize : Nat) (input : List UInt8) : State :=
  { ip := 0, steps := 0, tape := .blank stepSize, loops := .empty stepSize,
    unread := input, eventsRev := [], growthsRev := [] }

/-- Goes on at a position, one instruction later. -/
def jump (s : State) (ip : Nat) : State := { s with ip, steps := s.steps + 1 }

def next (s : State) : State := s.jump (s.ip + 1)

def emit (s : State) (e : Event) : State := { s with eventsRev := e :: s.eventsRev }

/-- Moves the cursor right, recording whether the tape grew. -/
def advance (s : State) : State :=
  let tape := s.tape.advance
  if s.tape.growsOnAdvance then
    { s with tape, growthsRev := .tape tape.length :: s.growthsRev }
  else
    { s with tape }

/-- Opens a loop at a position, recording whether the loop stack grew. -/
def openLoop (s : State) (position : Nat) : State :=
  let grows := s.loops.isFull
  let loops := s.loops.push position
  if grows then
    { s with loops, growthsRev := .loops loops.capacity :: s.growthsRev }
  else
    { s with loops }

/-- Takes over a tape with a changed cell and goes on; without one, the cell to change
does not exist. -/
def store (s : State) (tape? : Option Tape) : Except Halt State :=
  match tape? with
  | some tape => .ok { s with tape }.next
  | none => .error ⟨.missingCell, s⟩

/-- The exchanges in the order in which they happened. -/
def events (s : State) : List Event := s.eventsRev.reverse

def growths (s : State) : List Growth := s.growthsRev.reverse

end State

/-- The bytes written by a sequence of events. -/
def Event.output (events : List Event) : List UInt8 :=
  events.filterMap fun
    | .wrote b => some b
    | _ => none

def State.output (s : State) : List UInt8 := Event.output s.events

def Opcode.usesCell : Opcode → Bool
  | write | incrVal | loopStart | decrVal | read => true
  | loopEnd | incrPtr | decrPtr => false

namespace Machine

def finished (m : Machine) (s : State) : Bool := m.program.size ≤ s.ip

/-- Takes a byte from the input, after passing on what was written, and stores it or
what stands for the end of the input. -/
def receive (m : Machine) (s : State) : Except Halt State :=
  let s := s.emit .flushed
  match s.unread with
  | b :: rest =>
    let s := { s with unread := rest }.emit (.received (some b))
    s.store (s.tape.put? b)
  | [] =>
    let s := s.emit (.received none)
    match m.eof.fill? with
    | some b => s.store (s.tape.put? b)
    | none => .ok s.next

/-- Enters the loop that starts here, or skips it if the cell is zero. -/
def enterLoop (m : Machine) (s : State) : Except Halt State :=
  match s.tape.current? with
  | none => .error ⟨.missingCell, s⟩
  | some v =>
    if v = 0 then
      match m.program.loopEnd? s.ip with
      | some close => .ok (s.jump (close + 1))
      | none => .error ⟨.unterminatedLoop s.ip, s⟩
    else
      .ok (s.openLoop s.ip).next

def send (s : State) : Except Halt State :=
  match s.tape.current? with
  | none => .error ⟨.missingCell, s⟩
  | some v => .ok (s.emit (.wrote v)).next

/-- Goes back to the innermost open loop, which is examined again. -/
def closeLoop (m : Machine) (s : State) : Except Halt State :=
  match m.policy.leaveLoop s.loops s.ip with
  | .error f => .error ⟨f, s⟩
  | .ok none => .ok s.next
  | .ok (some (start, loops)) => .ok ({ s with loops }.jump start)

/-- What an opcode does once its access is allowed. -/
def perform (m : Machine) (op : Opcode) (s : State) : Except Halt State :=
  match op with
  | .incrPtr => .ok s.advance.next
  | .decrPtr => .ok { s with tape := m.policy.retreat s.tape }.next
  | .incrVal => s.store s.tape.increment?
  | .decrVal => s.store s.tape.decrement?
  | .write => send s
  | .read => m.receive s
  | .loopStart => m.enterLoop s
  | .loopEnd => m.closeLoop s

/-- The fault of an opcode's access to its cell, if the policy objects to it. -/
def denied? (m : Machine) (op : Opcode) (s : State) : Option Fault :=
  if op.usesCell then m.policy.accessFault? s.tape s.ip else none

/-- Executes the instruction at the instruction pointer. -/
def step (m : Machine) (s : State) : Except Halt State :=
  match m.program[s.ip]? with
  | none => .error ⟨.pastEnd, s⟩
  | some b =>
    match Opcode.ofByte? b with
    | none => .ok s.next
    | some op =>
      match m.denied? op s with
      | some f => .error ⟨f, s⟩
      | none => m.perform op s

end Machine

end NibTape

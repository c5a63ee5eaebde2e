import NibTape.CommandLine.Invocation
import NibTape.Machine.Run
import NibTape.Program.Packed

/-!
# A session of the interpreter

A session reads the command line, loads a program file, runs it on an input and ends with
an exit status. Faults of every kind are told on the error channel in one line, and the
status is then one.

A verbose session also keeps a log. It says what was loaded, how the run was set up, each
time a container grew, and how the run ended; it changes nothing else.
-/

namespace NibTape

/-- Where a log line comes from. -/
inductive LogSource where
  | engine
  | memory
  | cli
  deriving DecidableEq, Repr

/-- One line of a log. -/
structure LogLine where
  source : LogSource
  text : String
  deriving DecidableEq, Repr

def LogSource.name : LogSource → String
  | engine => "nibvm.engine"
  | memory => "nibvm.memory"
  | cli => "nibvm.cli"

namespace LogLine

def render (l : LogLine) : String := "DEBUG " ++ l.source.name ++ ": " ++ l.text ++ "\n"

def decoded (bytes instructions : Nat) : LogLine :=
  ⟨.engine, s!"decoded {bytes} bytes into {instructions} instructions"⟩

def running (instructions : Nat) (policy : Policy) (stepSize : Nat) : LogLine :=
  ⟨.engine, s!"running {instructions} instructions (policy={policy.name}, step_size={stepSize})"⟩

def grew : Growth → LogLine
  | .tape cells => ⟨.memory, s!"tape grew to {cells} cells"⟩
  | .loops slots => ⟨.memory, s!"loop stack grew to {slots} slots"⟩

def finished (steps : Nat) : LogLine := ⟨.engine, s!"finished after {steps} steps"⟩

def aborted : LogLine := ⟨.cli, "run aborted"⟩

end LogLine

namespace Session

/-- What ends a session before or during its run. -/
inductive Failure where
  | usage (e : CommandLine.UsageError)
  | config (e : Config.Invalid)
  | unreadable
  | fault (f : Fault)
  | outOfMemory
  /-- The path of the program file holds a NUL character. -/
  | nulCharacter

namespace Failure

def message : Failure → String
  | usage e => e.message
  | config e => e.message
  | unreadable => FileTree.Refusal.unreadable.message
  | fault f => f.message
  | outOfMemory => "Out of memory (try a smaller --memory-size)"
  | nulCharacter => FileTree.Refusal.nulCharacter.message

/-- Whether a failure is told on the error channel. The others are no failures that the
session expects, and pass through it. -/
def isTold : Failure → Bool
  | config (.stepSize _) => true
  | config _ => false
  | nulCharacter => false
  | _ => true

/-- Whether the log says that the run was given up. -/
def isLogged : Failure → Bool
  | usage _ => false
  | outOfMemory => false
  | f => f.isTold

end Failure

/-- How a session ends. -/
structure Outcome where
  /-- The exit status, or the failure that the session does not handle. -/
  ending : Except Failure Nat
  output : List UInt8
  /-- The lines of the log, kept whether or not the session is verbose. -/
  log : List LogLine
  /-- What is told on the error channel apart from the log. -/
  complaint : String
  unread : List UInt8

namespace Outcome

def errorText (o : Outcome) (verbose : Bool) : String :=
  (if verbose then String.join (o.log.map LogLine.render) else "") ++ o.complaint

end Outcome

/-- What is told on the error channel about a failure. -/
def complaintOf (f : Failure) : String := "nibvm: " ++ f.message ++ "\n"

def fail (f : Failure) (output : List UInt8) (log : List LogLine) (unread : List UInt8) :
    Outcome :=
  if f.isTold then
    { ending := .ok 1, output, log := if f.isLogged then log ++ [.aborted] else log,
      complaint := complaintOf f, unread }
  else
    { ending := .error f, output, log, complaint := "", unread }

def runLog (bytes : List UInt8) (m : Machine) (stepSize : Nat) (s : State) : List LogLine :=
  .decoded bytes.length m.program.size ::
    .running m.program.size m.policy stepSize :: s.growths.map .grew

/-- Runs a packed program to its end; `none` if it does not end within `fuel` steps. -/
def runPacked? (fuel : Nat) (config : Config) (stepSize : Nat) (bytes input : List UInt8) :
    Option Outcome :=
  let m := config.machine (Packed.unpack bytes)
  match m.runToEnd? fuel (State.initial stepSize input) with
  | none => none
  | some (.ok s) =>
    some { ending := .ok 0, output := s.output,
           log := runLog bytes m stepSize s ++ [.finished s.steps],
           complaint := "", unread := s.unread }
  | some (.error h) =>
    some (fail (.fault h.fault) h.state.output (runLog bytes m stepSize h.state) h.state.unread)

/-- Does what an invocation asks for. With `outOfMemory` there is no memory for a run. -/
def perform? (fuel : Nat) (tree : FileTree) (input : List UInt8) (outOfMemory : Bool)
    (i : Invocation) : Option Outcome :=
  match i.config with
  | .error e => some (fail (.config e) [] [] input)
  | .ok config =>
    if outOfMemory then some (fail .outOfMemory [] [] input)
    else
      match tree.read i.program with
      | .error .unreadable => some (fail .unreadable [] [] input)
      | .error .nulCharacter => some (fail .nulCharacter [] [] input)
      | .ok bytes => runPacked? fuel config (config.cells?.getD 0) bytes input

/-- The status, output and error text of a session; `none` if its run does not end within
`fuel` steps. -/
def answer? (fuel : Nat) (tree : FileTree) (input : List UInt8) (outOfMemory : Bool)
    (words : List String) : Option (Outcome × String) :=
  match Invocation.parse words with
  | .error e =>
    let o := fail (.usage e) [] [] input
    some (o, o.errorText false)
  | .ok i =>
    (perform? fuel tree input outOfMemory i).map fun o => (o, o.errorText i.verbose)

end Session

end NibTape

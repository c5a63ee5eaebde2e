import NibTape.Session

/-!
# The interpreter as a program

The machine is driven one step at a time, so that output is passed on and input is
fetched when the program asks for it. What is said and done is decided in
`NibTape.Session`; here it is only carried out.
-/

namespace NibTape.Console

/-- The channels of the program and whether a log is kept. -/
structure Channels where
  input : IO.FS.Stream
  output : IO.FS.Stream
  errors : IO.FS.Stream
  verbose : Bool

def log (c : Channels) (line : LogLine) : IO Unit := do
  if c.verbose then c.errors.putStr line.render

/-- Carries out what a step has recorded and forgets it. -/
def carryOut (c : Channels) (s : State) : IO State := do
  for g in s.growths do
    log c (.grew g)
  for e in s.events do
    match e with
    | .wrote b => c.output.write ⟨#[b]⟩
    | .flushed => c.output.flush
    | .received _ => pure ()
  return { s with eventsRev := [], growthsRev := [] }

/-- Fetches a byte if the next step asks for one. -/
def fetch (c : Channels) (m : Machine) (s : State) : IO State := do
  if m.awaitsInput s then
    c.output.flush
    let bytes ← c.input.read 1
    return { s with unread := bytes.toList }
  else
    return s

/-- Makes steps until the program ends or an instruction faults. -/
partial def drive (c : Channels) (m : Machine) (s : State) : IO (Except Halt State) := do
  if m.finished s then return .ok s
  let s ← fetch c m s
  match m.step s with
  | .ok s => drive c m (← carryOut c s)
  | .error h => return .error { h with state := ← carryOut c h.state }

def abort (c : Channels) (f : Session.Failure) : IO UInt32 := do
  if f.isLogged then log c .aborted
  c.errors.putStr (Session.complaintOf f)
  return 1

def runProgram (c : Channels) (config : Config) (bytes : List UInt8) : IO UInt32 := do
  let cells := config.cells?.getD 0
  let m := config.machine (Packed.unpack bytes)
  log c (.decoded bytes.length m.program.size)
  log c (.running m.program.size m.policy cells)
  let ending ← drive c m (.initial cells [])
  c.output.flush
  match ending with
  | .ok s =>
    log c (.finished s.steps)
    return 0
  | .error h => abort c (.fault h.fault)

def load (path : String) : IO (Option (List UInt8)) := do
  try
    let content ← IO.FS.readBinFile path
    return some content.toList
  catch _ =>
    return none

def perform (c : Channels) (i : Invocation) : IO UInt32 := do
  match i.config with
  | .error e => abort c (.config e)
  | .ok config =>
    match ← load i.program with
    | none => abort c .unreadable
    | some bytes => runProgram c config bytes

end NibTape.Console

def main (words : List String) : IO UInt32 := do
  let input ← IO.getStdin
  let output ← IO.getStdout
  let errors ← IO.getStderr
  let channels (verbose : Bool) : NibTape.Console.Channels := { input, output, errors, verbose }
  match NibTape.Invocation.parse words with
  | .error e => NibTape.Console.abort (channels false) (.usage e)
  | .ok i => NibTape.Console.perform (channels i.verbose) i

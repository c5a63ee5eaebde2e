import NibTape.Fuzz.Generator
import NibTape.Fuzz.Statistics
import NibTape.Text.Quoted

/-!
# Test campaigns

A campaign makes random programs, runs each under both policies and counts the results.
Its text names the generator, reports every program on which the policies diverge under
the number of its test, and ends with the summary.

The programs depend on the words that they are made from and on the generator only, not on
how earlier ones ran. A campaign breaks off at a number that has too many digits to be
written, be it in its text or in the message of a fault.
-/

namespace NibTape.Fuzz

/-- The first lines of a campaign's text. -/
def header? (tests : Int) (generator : String) : Option String := do
  let number ← Decimal.text? tests
  return s!"nibvm Policy Fuzzer - Running {number} tests\n" ++
    "Generator: " ++ generator ++ "\n" ++
    String.ofList (List.replicate 60 '=') ++ "\n"

/-- The instruction names of a packed program, as a list between brackets. -/
def listing (program : List UInt8) : String :=
  Text.bracketed
    ((Packed.nibbles program).map fun b => Text.quoted (instructionName b.toNat))

/-- The report of a program on which the policies diverge. -/
def report? (number : Int) (program : List UInt8) (strict permissive : Outcome) :
    Option String := do
  let number ← Decimal.text? number
  let strict ← strict.display?
  let permissive ← permissive.display?
  return s!"\nTest {number}: Policies diverge\n" ++
    "  Program:    " ++ Text.hexOfBytes program ++ "\n" ++
    "    " ++ listing program ++ "\n" ++
    "  Strict:     " ++ strict ++ "\n" ++
    "  Permissive: " ++ permissive ++ "\n"

/-- The choices that make a campaign. -/
structure Campaign where
  tests : Int := 1000
  /-- The words that the programs are made from. -/
  words : Random.Supply
  generator : String := "mixed"
  limit : Int := standardLimit

namespace Campaign

/-- Why a campaign breaks off. -/
inductive Failure where
  | draw (e : Random.DrawError)
  | run (e : RunError)
  /-- A number in the text has too many digits. -/
  | unwritable

/-- A tested program and what came of it. -/
structure Test where
  program : List UInt8
  comparison : Comparison

def programs (c : Campaign) : Except Random.DrawError (List (List UInt8)) :=
  match Random.Draw.times (Generator.ofName c.generator).drawDefault c.tests.toNat c.words with
  | .ok (programs, _) => .ok programs
  | .error e => .error e

def testAll (limit : Int) : List (List UInt8) → Except RunError (List Test)
  | [] => .ok []
  | program :: rest => do
    let comparison ← compare program limit
    let others ← testAll limit rest
    return { program, comparison } :: others

def run (c : Campaign) : Except Failure (List Test) :=
  match c.programs with
  | .error e => .error (.draw e)
  | .ok programs =>
    match testAll c.limit programs with
    | .error e => .error (.run e)
    | .ok tests => .ok tests

def statistics (tests : List Test) : Statistics :=
  Statistics.recordAll {} (tests.map (·.comparison))

/-- The reports of a series of tests, the first of which has the given number. -/
def reports? (number : Nat) : List Test → Option (List String)
  | [] => some []
  | t :: rest =>
    if t.comparison.matched then reports? (number + 1) rest
    else do
      let first ← report? number t.program t.comparison.strict t.comparison.permissive
      let others ← reports? (number + 1) rest
      return first :: others

/-- A part of the text, which is left out of a campaign that is not verbose. -/
def written (verbose : Bool) (part? : Option String) : Except Failure String :=
  if verbose then
    match part? with
    | some part => .ok part
    | none => .error .unwritable
  else .ok ""

/-- The statistics and the text of a campaign. The first lines are written before the first
test takes place. -/
def conduct (c : Campaign) (verbose : Bool) : Except Failure (Statistics × String) := do
  let opening ← written verbose (header? c.tests c.generator)
  let tests ← c.run
  let found ← written verbose ((reports? 1 tests).map String.join)
  let closing ← written verbose (statistics tests).summary?
  return (statistics tests, opening ++ found ++ closing)

end Campaign

end NibTape.Fuzz

import NibTape.CommandLine.Reading
import NibTape.Config
import NibTape.FileTree
import NibTape.Text.LowerCase

/-!
# The interpreter's command line

The interpreter is called with a program file and up to four switches. Words that begin
with a dash are taken in lower case, so the spelling of a switch may use capitals; the
rest of such a word is changed along with it.

The step size is kept as the text that was given and checked when the configuration is
made, before the rule for the end of the input.
-/

namespace NibTape

/-- The switches of the interpreter. -/
inductive RunSwitch where
  | memorySize
  | safe
  | eof
  | verbose
  deriving DecidableEq, Repr

namespace RunSwitch

open CommandLine

/-- The command line of the interpreter. -/
def grammar : Grammar RunSwitch where
  switches := [
    { key := .memorySize, names := ["-m", "--memory-size"], takesValue := true },
    { key := .safe, names := ["-s", "--safe"] },
    { key := .eof, names := ["-e", "--eof"], takesValue := true,
      complaint := choiceComplaint (EndOfInput.all.map EndOfInput.label) },
    { key := .verbose, names := ["-v", "--verbose"] }]
  operand := some "program"

end RunSwitch

/-- What the interpreter was asked to do. -/
structure Invocation where
  /-- The path of the program file, in its plain form. -/
  program : String
  /-- The step size as it was given; `none` if the value was lost. -/
  memorySize : Option String
  safe : Bool
  /-- The rule for the end of the input as it was given; `none` if the value was lost. -/
  eof : Option String
  verbose : Bool
  deriving DecidableEq, Repr

namespace Invocation

open CommandLine

/-- Puts a word that begins with a dash in lower case. -/
def foldCase (word : String) : String :=
  match word.toList with
  | '-' :: rest => String.ofList (Text.lower ('-' :: rest))
  | _ => word

/-- The value of a switch, which may have been lost, or what stands for it if the switch
was not met. -/
def valueOf (r : Reading RunSwitch) (key : RunSwitch) (otherwise : String) : Option String :=
  match r.given? key with
  | none => some otherwise
  | some (.value word) => some word
  | some _ => none

def ofReading (r : Reading RunSwitch) : Invocation :=
  { program := FileTree.plainPath (r.operand.getD "")
    memorySize := valueOf r .memorySize (toString StepSize.standard)
    safe := r.met .safe
    eof := valueOf r .eof EndOfInput.allOnes.label
    verbose := r.met .verbose }

/-- Reads the words of a command line. No switch of the interpreter ends reading early,
so the only interruption is an error. -/
def parse (words : List String) : Except UsageError Invocation :=
  match CommandLine.read RunSwitch.grammar (words.map foldCase) with
  | .ok r => .ok (ofReading r)
  | .error (.usage e) => .error e
  | .error (.stopped _) => .error (.unrecognized [])

/-- A value as a setting; a lost one is an empty list. -/
def setting (value : Option String) : Value :=
  match value with
  | some word => .text word
  | none => .list []

def config (i : Invocation) : Except Config.Invalid Config :=
  match StepSize.check (setting i.memorySize) with
  | .error cause => .error (.stepSize cause)
  | .ok cells =>
    Config.make
      { stepSize := .int cells, strict := i.safe, eofWord? := some (setting i.eof) }

end Invocation

end NibTape

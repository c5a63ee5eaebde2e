import NibTape.CommandLine.Reading
import NibTape.Fuzz.Campaign
import NibTape.Number.Literal

/-!
# The fuzzer's command line

The fuzzer is called with switches only. Long spellings may be shortened as long as they
stay unambiguous, and spelling is case-sensitive. Wrong use is answered with the usage
lines and status two; asking for help, with the whole help text.

A campaign needs a seed. Where the command line gives none, the caller supplies one.
-/

namespace NibTape.Fuzz

open CommandLine

/-- The switches of the fuzzer. -/
inductive FuzzSwitch where
  | help
  | tests
  | seed
  | generator
  | limit
  deriving DecidableEq, Repr

namespace FuzzSwitch

/-- The integer that a word spells, with white space around it ignored. -/
def integer? (word : String) : Option Int :=
  Literal.integer? (Text.trim Text.isWhiteSpace word.toList)

def integerComplaint (word : String) : Option String :=
  match integer? word with
  | some _ => none
  | none => some ("invalid int value: " ++ Text.quoted word)

/-- The command line of the fuzzer. -/
def grammar : Grammar FuzzSwitch where
  switches := [
    { key := .help, names := ["-h", "--help"], stops := true },
    { key := .tests, names := ["-n", "--num-tests"], takesValue := true,
      complaint := integerComplaint },
    { key := .seed, names := ["-s", "--seed"], takesValue := true,
      complaint := integerComplaint },
    { key := .generator, names := ["-g", "--generator"], takesValue := true,
      complaint := choiceComplaint (Generator.all.map Generator.name) },
    { key := .limit, names := ["--max-steps"], takesValue := true,
      complaint := integerComplaint }]
  abbreviations := true

def usageText : String :=
  "usage: fuzzer.py [-h] [-n NUM_TESTS] [-s SEED] [-g \x7brandom,structured,mixed\x7d]\n" ++
  "                 [--max-steps MAX_STEPS]\n"

def helpText : String :=
  usageText ++ "\n" ++
  "Policy-divergence fuzzer for nibvm\n\n" ++
  "options:\n" ++
  "  -h, --help            show this help message and exit\n" ++
  "  -n NUM_TESTS, --num-tests NUM_TESTS\n" ++
  "                        Number of random programs to run (default: 1000)\n" ++
  "  -s SEED, --seed SEED  Random seed for reproducibility\n" ++
  "  -g \x7brandom,structured,mixed\x7d, --generator \x7brandom,structured,mixed\x7d\n" ++
  "                        Generator type (default: mixed)\n" ++
  "  --max-steps MAX_STEPS\n" ++
  "                        Instruction budget per run (default: 10000)\n"

end FuzzSwitch

structure Answer where
  status : Nat
  output : String
  errors : String
  deriving DecidableEq, Repr

/-- Why the fuzzer gives no answer. -/
inductive Breakdown where
  /-- The value of a switch was lost. -/
  | lostValue (key : FuzzSwitch) (output : String)
  | campaign (f : Campaign.Failure)

def lostValueMessage : FuzzSwitch → String
  | .help => ""
  | .tests => "'list' object cannot be interpreted as an integer"
  | .seed =>
    "The only supported seed types are: None,\nint, float, str, bytes, and bytearray."
  | .generator => "unhashable type: 'list'"
  | .limit => "'>=' not supported between instances of 'int' and 'list'"

/-- The integer that a switch was given, or what stands for it if it was not met; `none`
if the value was lost. -/
def integerOf (r : Reading FuzzSwitch) (key : FuzzSwitch) (otherwise : Int) : Option Int :=
  match r.given? key with
  | none => some otherwise
  | some (.value word) => FuzzSwitch.integer? word
  | some _ => none

def generatorOf (r : Reading FuzzSwitch) : Option String :=
  match r.given? .generator with
  | none => some Generator.mixed.name
  | some (.value word) => some word
  | some _ => none

/-- The campaign that a command line asks for, or the switch whose lost value is used
first. The text written by then is empty but for a lost number of tests or steps. -/
def campaignOf (r : Reading FuzzSwitch) (spareSeed : Int) : Except Breakdown Campaign :=
  match integerOf r .seed spareSeed with
  | none => .error (.lostValue .seed "")
  | some seed =>
    match generatorOf r with
    | none => .error (.lostValue .generator "")
    | some generator =>
      match integerOf r .tests 1000 with
      | none =>
        let shown := "nibvm Policy Fuzzer - Running [] tests\nGenerator: " ++ generator ++ "\n"
        .error (.lostValue .tests (shown ++ String.ofList (List.replicate 60 '=') ++ "\n"))
      | some tests =>
        match integerOf r .limit standardLimit with
        | some limit => .ok { tests, words := .ofSeed seed, generator, limit }
        | none =>
          if 0 < tests then
            match header? tests generator with
            | some opening => .error (.lostValue .limit opening)
            | none => .error (.campaign .unwritable)
          else .ok { tests, words := .ofSeed seed, generator }

def answer (words : List String) (spareSeed : Int) : Except Breakdown Answer :=
  match CommandLine.read FuzzSwitch.grammar words with
  | .error (.usage e) =>
    .ok { status := 2, output := "",
          errors := FuzzSwitch.usageText ++ "fuzzer.py: error: " ++ e.message ++ "\n" }
  | .error (.stopped _) => .ok { status := 0, output := FuzzSwitch.helpText, errors := "" }
  | .ok r => do
    let c ← campaignOf r spareSeed
    match c.conduct true with
    | .error f => throw (.campaign f)
    | .ok (_, text) => return { status := 0, output := text, errors := "" }

end NibTape.Fuzz

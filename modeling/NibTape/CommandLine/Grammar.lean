import NibTape.Text.Quoted

/-!
# What a command line may hold

A grammar lists switches, each with its spellings, and at most one operand. A switch
stands alone or takes one value. The key of a switch says what it means to the program.

The errors name a switch by all its spellings, in the order in which they are listed.
-/

namespace NibTape.CommandLine

/-- An option of a program. -/
structure Switch (κ : Type) where
  key : κ
  /-- The spellings, with their dashes. -/
  names : List String
  /-- Whether a value belongs to the switch. -/
  takesValue : Bool := false
  /-- What is wrong with a value, if anything is. -/
  complaint : String → Option String := fun _ => none
  /-- Whether the rest of the line does not matter once the switch is met. -/
  stops : Bool := false

/-- The switches and the operand of a program. -/
structure Grammar (κ : Type) where
  switches : List (Switch κ)
  /-- Whether the start of a long spelling may stand for it. -/
  abbreviations : Bool := false
  /-- The name of the one operand, if the program has one. -/
  operand : Option String := none

/-- Why a command line cannot be used. -/
inductive UsageError where
  | expectedValue (names : List String)
  | ignoredValue (names : List String) (attached : String)
  | refusedValue (names : List String) (complaint : String)
  | ambiguous (word : String) (candidates : List String)
  | missingOperand (name : String)
  | unrecognized (words : List String)
  deriving DecidableEq, Repr

namespace UsageError

def about (names : List String) (complaint : String) : String :=
  "argument " ++ "/".intercalate names ++ ": " ++ complaint

def message : UsageError → String
  | expectedValue names => about names "expected one argument"
  | ignoredValue names attached =>
    about names ("ignored explicit argument " ++ Text.quoted attached)
  | refusedValue names complaint => about names complaint
  | ambiguous word candidates =>
    "ambiguous option: " ++ word ++ " could match " ++ ", ".intercalate candidates
  | missingOperand name => "the following arguments are required: " ++ name
  | unrecognized words => "unrecognized arguments: " ++ " ".intercalate words

end UsageError

/-- The complaint about a value that is not one of a few words. -/
def choiceComplaint (choices : List String) (value : String) : Option String :=
  if choices.contains value then none
  else
    some ("invalid choice: " ++ Text.quoted value ++ " (choose from " ++
      ", ".intercalate (choices.map Text.quoted) ++ ")")

namespace Grammar

variable {κ : Type}

def spellings (g : Grammar κ) : List (List Char × Switch κ) :=
  g.switches.flatMap fun s => s.names.map fun n => (n.toList, s)

def lookup? (g : Grammar κ) (spelling : List Char) : Option (Switch κ) :=
  (g.spellings.find? fun entry => entry.1 == spelling).map (·.2)

def completions (g : Grammar κ) (word : List Char) : List (List Char × Switch κ) :=
  g.spellings.filter fun entry => word.isPrefixOf entry.1

end Grammar

end NibTape.CommandLine

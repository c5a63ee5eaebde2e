import NibTape.EndOfInput
import NibTape.Machine
import NibTape.Number.Literal
import NibTape.Value

/-!
# Run configurations

A configuration fixes the step size, the bounds policy and the rule for the end of the
input. It is checked when it is made: the step size has to be a number from 1 to the
largest 32-bit number, or a text that spells one.

A step size given as a text passes the check but stays a text. A machine needs a number,
so such a configuration is refused when a machine is to be set up with it.
-/

namespace NibTape

namespace StepSize

/-- The step size of a run that does not choose one. -/
def standard : Nat := 32768

def largest : Nat := 0xFFFFFFFF

/-- Why a value is no step size. -/
inductive Invalid where
  | truthValue
  | notANumber (v : Value)
  | outOfRange (n : Int)

def Invalid.message? : Invalid → Option String
  | truthValue => some "Invalid memory step size"
  | notANumber v => v.display?.map fun shown => s!"Invalid memory step size '{shown}'"
  | outOfRange n => (Decimal.text? n).map fun shown => s!"Invalid memory step size '{shown}'"

def Invalid.message (cause : Invalid) : String := cause.message?.getD Decimal.tooLong

/-- The name of the complaint, which it has only if it can be told. -/
def Invalid.kind? (cause : Invalid) : Option String :=
  cause.message?.map fun _ => "InvalidMemoryStepSize"

def ofInt (n : Int) : Except Invalid Nat :=
  if 1 ≤ n ∧ n ≤ largest then .ok n.toNat else .error (.outOfRange n)

/-- The number that a text spells, with blanks around it ignored. -/
def integer? (s : String) : Option Int :=
  Literal.integer? (Text.trim Text.isBlank s.toList)

def check : Value → Except Invalid Nat
  | .bool _ => .error .truthValue
  | .text s =>
    match integer? s with
    | some n => ofInt n
    | none => .error (.notANumber (.text s))
  | .int n => ofInt n
  | v => .error (.notANumber v)

theorem ofInt_eq_ok_iff {n : Int} {k : Nat} :
    ofInt n = .ok k ↔ n = k ∧ 1 ≤ k ∧ k ≤ largest := by
  unfold ofInt
  split
  · rename_i h
    simp only [Except.ok.injEq]
    omega
  · rename_i h
    simp only [reduceCtorEq, false_iff]
    omega

/-- What passed the check passes it again. -/
theorem ofInt_of_check {v : Value} {cells : Nat} (h : check v = .ok cells) :
    ofInt cells = .ok cells := by
  have given : ∀ {n : Int}, ofInt n = .ok cells → ofInt cells = .ok cells := by
    intro n hn
    rw [← (ofInt_eq_ok_iff.mp hn).1, hn]
  unfold check at h
  split at h
  · cases h
  · split at h
    · exact given h
    · cases h
  · exact given h
  · cases h

end StepSize

/-- The settings of a run. -/
structure Config where
  /-- A value that passes `StepSize.check`. -/
  stepSize : Value
  strict : Bool
  eof : EndOfInput

namespace Config

/-- The settings that a configuration is made from. -/
structure Settings where
  stepSize : Value := .int StepSize.standard
  strict : Bool := false
  /-- The word that selects the rule for the end of the input. -/
  eofWord? : Option Value := none
  /-- A value given in place of a rule for the end of the input. -/
  eofValue? : Option Value := none

/-- Why settings make no configuration. -/
inductive Invalid where
  | stepSize (cause : StepSize.Invalid)
  | unknownEof (v : Value)
  | eofNotARule (v : Value)

def Invalid.message? : Invalid → Option String
  | stepSize cause => cause.message?
  | unknownEof v => v.literal?.map fun shown => shown ++ " is not a valid EofPolicy"
  | eofNotARule v => v.literal?.map fun shown => "eof must be an EofPolicy, got " ++ shown

def Invalid.message (cause : Invalid) : String := cause.message?.getD Decimal.tooLong

def eofOfWord (v : Value) : Except Invalid EndOfInput :=
  let found? : Option EndOfInput :=
    match v with
    | .text s => EndOfInput.ofLabel? s
    | _ => none
  match found? with
  | some e => .ok e
  | none => .error (.unknownEof v)

/-- Checks a step size given for a configuration, which keeps the value as it is. -/
def checkStepSize (v : Value) : Except Invalid Unit :=
  match StepSize.check v with
  | .ok _ => .ok ()
  | .error cause => .error (.stepSize cause)

/-- Makes a configuration. A word for the end of the input is looked up before the step
size is checked; a value that is no rule is found after that. -/
def make (settings : Settings) : Except Invalid Config := do
  let eof ←
    match settings.eofWord? with
    | some v => eofOfWord v
    | none => pure .allOnes
  checkStepSize settings.stepSize
  match settings.eofValue? with
  | some v => throw (.eofNotARule v)
  | none => return { stepSize := settings.stepSize, strict := settings.strict, eof }

/-- The configuration of a run that chooses nothing. -/
def standard : Config :=
  { stepSize := .int StepSize.standard, strict := false, eof := .allOnes }

def policy (c : Config) : Policy := if c.strict then .strict else .permissive

/-- What is said of a step size that is no number when a machine is set up. -/
def notANumberMessage : String := "string argument without an encoding"

/-- The step size as a number of cells; a step size that is still a text has none. -/
def cells? (c : Config) : Option Nat :=
  match c.stepSize with
  | .int n => some n.toNat
  | _ => none

def machine (c : Config) (program : Program) : Machine :=
  { program, policy := c.policy, eof := c.eof }

def setUp? (c : Config) (program : Program) (input : List UInt8) : Option (Machine × State) :=
  c.cells?.map fun n => (c.machine program, State.initial n input)

end Config

end NibTape

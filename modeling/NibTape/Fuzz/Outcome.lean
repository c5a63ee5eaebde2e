import NibTape.Config
import NibTape.Machine.Run
import NibTape.Program.Packed

/-!
# Outcomes of a test run

A test run has a step budget, so it comes to an end: it completes with an output, it fails
for a reason, or it uses up its budget. That is its outcome, unless the end cannot be told.
Two outcomes agree if they are of one kind and, unless both ran out of budget, hold the same.
-/

namespace NibTape.Fuzz

/-- What came of a test run. -/
inductive Outcome where
  | completed (output : List UInt8)
  | failed (reason : String)
  | exhausted (limit : Int)
  /-- No run took place. -/
  | none
  deriving DecidableEq, Repr

namespace Outcome

def isExhausted : Outcome → Bool
  | exhausted _ => true
  | _ => false

def isFailed : Outcome → Bool
  | failed _ => true
  | _ => false

def isCompleted : Outcome → Bool
  | completed _ => true
  | _ => false

/-- Whether two outcomes count as the same. -/
def agrees (a b : Outcome) : Bool :=
  match a, b with
  | exhausted _, exhausted _ => true
  | a, b => a == b

def display? : Outcome → Option String
  | completed output => some ("Completed(output=" ++ Text.quotedBytes output ++ ")")
  | failed reason => some ("Failed(reason=" ++ Text.quoted reason ++ ")")
  | exhausted limit => (Decimal.text? limit).map fun shown => s!"Exhausted(steps={shown})"
  | none => some "ExecutionResult()"

/-- The outcome that a fault of a kind stands for. -/
def ofFault (kind : String) : Fault → Outcome
  | .stepLimit _ limit => exhausted limit
  | _ => failed kind

/-- The outcome of a run that ended; a fault without a kind has none. -/
def ofRun? : Except Halt State → Option Outcome
  | .ok s => some (completed s.output)
  | .error h => h.fault.kind?.map fun kind => ofFault kind h.fault

end Outcome

def standardInput : List UInt8 := [3, 1]

def standardStepSize : Nat := 4

def standardLimit : Int := 10000

/-- Why a test run does not take place, or ends in a way that is no outcome. -/
inductive RunError where
  | config (e : Config.Invalid)
  /-- The step size is a text. -/
  | notANumber
  | fault (f : Fault)

def execute (program : List UInt8) (strict : Bool) (input : List UInt8) (stepSize : Value)
    (limit : Int) : Except RunError Outcome :=
  match Config.make { stepSize, strict } with
  | .error e => .error (.config e)
  | .ok c =>
    match c.setUp? (Packed.unpack program) input with
    | .none => .error .notANumber
    | .some (m, s) =>
      match m.runWithin limit s with
      | .error ⟨f, s⟩ =>
        match Outcome.ofRun? (.error ⟨f, s⟩) with
        | .some o => .ok o
        | .none => .error (.fault f)
      | .ok s => .ok (.completed s.output)

/-- The outcomes of one program under both policies. -/
structure Comparison where
  strict : Outcome
  permissive : Outcome
  matched : Bool
  deriving DecidableEq, Repr

def Comparison.ofOutcomes (strict permissive : Outcome) : Comparison :=
  { strict, permissive, matched := strict.agrees permissive }

/-- Runs a packed program under both policies with the standard input and step size. -/
def compare (program : List UInt8) (limit : Int) : Except RunError Comparison := do
  let stepSize := Value.int standardStepSize
  let strict ← execute program true standardInput stepSize limit
  let permissive ← execute program false standardInput stepSize limit
  return .ofOutcomes strict permissive

@[simp] theorem Outcome.agrees_self (a : Outcome) : a.agrees a = true := by
  cases a <;> simp [agrees]

end NibTape.Fuzz

import NibTape.Proofs.Failure
import NibTape.Proofs.Folding
import NibTape.Proofs.Setup
import NibTape.Session

/-!
# How a session ends

The exit status says whether a session did what its line asked for. It is zero exactly if the
line parses, the step size is in range, the file can be read and the run of its program
completes. A failure is told in one line and makes the status one: whatever the line, the tree
of files and the program may be, it is one of a few kinds, and a run can add only the faults that
the language declares.

One failure passes through the session. A rule for the end of the input that is spelled like the
separator is lost while the line is read, and what is left of it is no rule. The step size
behaves otherwise: a lost one is refused like any other value that is no number.

The output is what the run wrote up to its end, and empty if there was no run.
-/

namespace NibTape

namespace FileTree

variable {c : Char} {path : String}

end FileTree

namespace CommandLine

end CommandLine

namespace Invocation

open CommandLine

variable {words : List String} {i : Invocation}

end Invocation

namespace Session

open CommandLine

/-- What a line selects for a run: it parses, its step size is in range, and its rule for the
end of the input is one of the rules. -/
structure Selects (words : List String) (i : Invocation) (cells : Nat) (eof : EndOfInput) :
    Prop where
  parsed : Invocation.parse words = .ok i
  stepSize : StepSize.check (Invocation.setting i.memorySize) = .ok cells
  rule : i.eof = some eof.label

/-- A line leads to a run of a program: there is memory for it, and the file can be read. -/
structure Leads (tree : FileTree) (outOfMemory : Bool) (words : List String) (i : Invocation)
    (cells : Nat) (eof : EndOfInput) (bytes : List UInt8) : Prop
    extends Selects words i cells eof where
  memory : outOfMemory = false
  readable : tree.read i.program = .ok bytes

def machine (i : Invocation) (eof : EndOfInput) (bytes : List UInt8) : Machine :=
  { program := Packed.unpack bytes, policy := if i.safe then .strict else .permissive, eof }

/-- What keeps a line from leading to a run. -/
inductive Refuses (tree : FileTree) (outOfMemory : Bool) (words : List String) :
    Failure → Prop where
  | usage (e : UsageError) (refused : Invocation.parse words = .error e) :
      Refuses tree outOfMemory words (.usage e)
  | stepSize (i : Invocation) (cause : StepSize.Invalid)
      (parsed : Invocation.parse words = .ok i)
      (refused : StepSize.check (Invocation.setting i.memorySize) = .error cause) :
      Refuses tree outOfMemory words (.config (.stepSize cause))
  | outOfMemory (i : Invocation) (cells : Nat) (eof : EndOfInput)
      (selects : Selects words i cells eof) (memory : outOfMemory = true) :
      Refuses tree outOfMemory words .outOfMemory
  | unreadable (i : Invocation) (cells : Nat) (eof : EndOfInput)
      (selects : Selects words i cells eof) (memory : outOfMemory = false)
      (refused : tree.read i.program = .error .unreadable) :
      Refuses tree outOfMemory words .unreadable

/-- The session comes to a failure that it tells, with the output before it: the line does not
lead to a run, or the run ends with a fault, which is one that the language declares. -/
inductive Fails (tree : FileTree) (input : List UInt8) (outOfMemory : Bool)
    (words : List String) : Failure → List UInt8 → Prop where
  | refused (f : Failure) (refuses : Refuses tree outOfMemory words f) :
      Fails tree input outOfMemory words f []
  | fault (i : Invocation) (cells : Nat) (eof : EndOfInput) (bytes : List UInt8) (h : Halt)
      (leads : Leads tree outOfMemory words i cells eof bytes)
      (ends : (machine i eof bytes).Ends none (State.initial cells input) (.error h))
      (declared : h.fault.Declared (machine i eof bytes).policy none) :
      Fails tree input outOfMemory words (.fault h.fault) h.state.output

def Quiet (words : List String) : Prop :=
  ∀ i, Invocation.parse words = .ok i → i.verbose = false

variable {tree : FileTree} {input bytes out : List UInt8} {outOfMemory : Bool} {fuel cells : Nat}
variable {words : List String} {o : Outcome} {err : String} {s : State} {f : Failure}
variable {i : Invocation} {eof : EndOfInput}

/-! ### What each way to end makes of the outcome -/

theorem Selects.config (selects : Selects words i cells eof) :
    i.config = .ok { stepSize := .int cells, strict := i.safe, eof } :=
  Invocation.config_of_checked selects.stepSize selects.rule

def outcomeOf (i : Invocation) (cells : Nat) (eof : EndOfInput) (bytes : List UInt8) :
    Except Halt State → Outcome
  | .ok s =>
    { ending := .ok 0, output := s.output,
      log := runLog bytes (machine i eof bytes) cells s ++ [.finished s.steps],
      complaint := "", unread := s.unread }
  | .error h =>
    fail (.fault h.fault) h.state.output (runLog bytes (machine i eof bytes) cells h.state)
      h.state.unread

end Session

end NibTape

import NibTape.CommandLine.Token

/-!
# Reading a command line

The classed words are used from left to right. A switch that takes a value takes the
attached one or the next word, which has to be plain. The first plain word that is not
taken as a value is the operand, and a separator next to it is dropped. Whatever is left
over is collected and reported at the end, after a missing operand.

Short switches that stand alone may be joined in one word. The value of a switch is
looked at when the switch is met, so the leftmost fault is the one reported. A value that
is spelled like the separator is lost: the switch then has been given nothing.
-/

namespace NibTape.CommandLine

variable {κ : Type}

/-- What a switch was given. -/
inductive Given where
  /-- The switch stands alone. -/
  | bare
  | value (word : String)
  /-- The value was lost. -/
  | nothing
  deriving DecidableEq, Repr

/-- What has been read of a command line. -/
structure Reading (κ : Type) where
  /-- The switches met, in order, with what they were given. -/
  taken : List (κ × Given) := []
  operand : Option String := none
  /-- The words that belong to nothing, in order. -/
  extras : List String := []

/-- Why reading ended early. -/
inductive Interruption (κ : Type) where
  | usage (e : UsageError)
  /-- A switch was met that makes the rest pointless. -/
  | stopped (key : κ)

/-- Switches joined in one word: all but the last stand alone. -/
structure Chain (κ : Type) where
  bare : List (Switch κ)
  last : Switch κ
  attached : Option (List Char)

/-- Splits a word into the switches joined in it, given the first of them and what is
attached to it. -/
def chain (g : Grammar κ) (switch : Switch κ) (short : Bool) (attached : List Char) :
    Except UsageError (Chain κ) :=
  if switch.takesValue then .ok ⟨[], switch, some attached⟩
  else
    let ignored : UsageError := .ignoredValue switch.names (String.ofList attached)
    match attached with
    | [] => .error ignored
    | c :: rest =>
      if short then
        match g.lookup? ['-', c] with
        | none => .error ignored
        | some next =>
          if rest.isEmpty then .ok ⟨[switch], next, none⟩
          else
            match chain g next true rest with
            | .ok joined => .ok { joined with bare := switch :: joined.bare }
            | .error e => .error e
      else .error ignored

/-- The switches in a word that was classed as a known switch. -/
def chainOf (g : Grammar κ) (switch : Switch κ) (spelling : List Char) :
    Option (List Char) → Except UsageError (Chain κ)
  | none => .ok ⟨[], switch, none⟩
  | some attached => chain g switch (spelling.drop 1 |>.head? |> (· != some '-')) attached

def Given.ofWord (word : List Char) : Given :=
  if word = ['-', '-'] then .nothing else .value (String.ofList word)

namespace Reading

def take (r : Reading κ) (switch : Switch κ) (given : Given) :
    Except (Interruption κ) (Reading κ) :=
  if switch.stops then .error (.stopped switch.key)
  else
    let complaint? : Option String :=
      match given with
      | .value word => switch.complaint word
      | _ => none
    match complaint? with
    | some complaint => .error (.usage (.refusedValue switch.names complaint))
    | none => .ok { r with taken := r.taken ++ [(switch.key, given)] }

def takeBare (r : Reading κ) : List (Switch κ) → Except (Interruption κ) (Reading κ)
  | [] => .ok r
  | switch :: rest => do
    let r ← r.take switch .bare
    r.takeBare rest

def takeChain (r : Reading κ) (c : Chain κ) (given : Given) :
    Except (Interruption κ) (Reading κ) := do
  let r ← r.takeBare c.bare
  r.take c.last given

def setOperand (r : Reading κ) (word : List Char) : Reading κ :=
  { r with operand := some (String.ofList word) }

def skip (r : Reading κ) (word : List Char) : Reading κ :=
  { r with extras := r.extras ++ [String.ofList word] }

end Reading

def wantsOperand (g : Grammar κ) (r : Reading κ) : Bool :=
  g.operand.isSome && r.operand.isNone

/-- Uses classed words from left to right. -/
def consume (g : Grammar κ) (r : Reading κ) :
    List (Token κ) → Except (Interruption κ) (Reading κ)
  | [] => .ok r
  | .unknown word :: rest => consume g (r.skip word) rest
  | .known switch spelling attached :: rest =>
    match chainOf g switch spelling attached with
    | .error e => .error (.usage e)
    | .ok c =>
      match c.attached with
      | some word =>
        match r.takeChain c (.ofWord word) with
        | .ok r => consume g r rest
        | .error e => .error e
      | none =>
        if c.last.takesValue then
          match rest with
          | .plain word :: rest =>
            match r.takeChain c (.ofWord word) with
            | .ok r => consume g r rest
            | .error e => .error e
          | _ => .error (.usage (.expectedValue c.last.names))
        else
          match r.takeChain c .bare with
          | .ok r => consume g r rest
          | .error e => .error e
  | .plain word :: .separator :: rest =>
    if wantsOperand g r then consume g (r.setOperand word) rest
    else consume g ((r.skip word).skip ['-', '-']) rest
  | .plain word :: rest =>
    if wantsOperand g r then consume g (r.setOperand word) rest
    else consume g (r.skip word) rest
  | .separator :: .plain word :: rest =>
    if wantsOperand g r then consume g (r.setOperand word) rest
    else consume g ((r.skip ['-', '-']).skip word) rest
  | .separator :: rest => consume g (r.skip ['-', '-']) rest
termination_by structural tokens => tokens

/-- Checks that the operand was met and that nothing is left over. -/
def settle (g : Grammar κ) (r : Reading κ) : Except (Interruption κ) (Reading κ) :=
  match g.operand, r.operand with
  | some name, none => .error (.usage (.missingOperand name))
  | _, _ =>
    if r.extras.isEmpty then .ok r else .error (.usage (.unrecognized r.extras))

def read (g : Grammar κ) (words : List String) : Except (Interruption κ) (Reading κ) := do
  let classed ←
    match tokens g (words.map String.toList) with
    | .ok classed => pure classed
    | .error e => throw (.usage e)
  let r ← consume g {} classed
  settle g r

namespace Reading

/-- What a switch was given last, if it was met. -/
def given? [DecidableEq κ] (r : Reading κ) (key : κ) : Option Given :=
  (r.taken.reverse.find? fun entry => entry.1 = key).map (·.2)

def met [DecidableEq κ] (r : Reading κ) (key : κ) : Bool := (r.given? key).isSome

end Reading

@[simp] theorem consume_nil (g : Grammar κ) (r : Reading κ) : consume g r [] = .ok r := by
  rw [consume]

end NibTape.CommandLine

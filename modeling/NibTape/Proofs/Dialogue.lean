import Mathlib.Computability.RegularExpressions
import NibTape.Proofs.Input

/-!
# The dialogue of a run

What a run exchanges with the outside world is the sequence of the exchanges of its steps, and
one flush at its end. A write gives one byte away. A read passes on what was written before it
asks for a byte, so that whoever answers has seen all the output. No other instruction exchanges
anything, and neither does one that fails.

So the exchanges of a run form a word of a regular language: writes and reads in any order, each
read right after a flush, and a flush at the end. The answers to the reads are the bytes of the
input one after another, and then the end of the input again and again.
-/

namespace NibTape

inductive Event.Kind where
  | write
  | flush
  | read
  deriving DecidableEq, Repr

namespace Event

def kind : Event → Kind
  | wrote _ => .write
  | flushed => .flush
  | received _ => .read

def answers (events : List Event) : List (Option UInt8) :=
  events.filterMap fun
    | .received b => some b
    | _ => none

/-- A write, or a read right after a flush: the language of `w | f r`. -/
def exchange : RegularExpression Kind := .char .write + .char .flush * .char .read

/-- Writes and reads in any order: the language of `(w | f r)*`. -/
def exchanges : RegularExpression Kind := exchange.star

/-- Exchanges with a flush behind them: the language of `(w | f r)* f`. -/
def dialogue : RegularExpression Kind := exchanges * .char .flush

variable {word rest : List Kind} {events more : List Event}

theorem nil_mem_exchanges : [] ∈ exchanges.matches' := Language.nil_mem_kstar _

theorem append_mem_exchanges (h : word ∈ exchanges.matches') (hr : rest ∈ exchanges.matches') :
    word ++ rest ∈ exchanges.matches' := by
  have hmul := Language.append_mem_mul h hr
  rwa [exchanges, RegularExpression.matches'_star, kstar_mul_kstar] at hmul

theorem mem_exchanges (h : word ∈ exchange.matches') : word ∈ exchanges.matches' := by
  have hle : exchange.matches' ≤ exchanges.matches' := le_kstar
  exact hle h

theorem write_mem_exchanges : [Kind.write] ∈ exchanges.matches' := mem_exchanges (.inl rfl)

theorem read_mem_exchanges : [Kind.flush, .read] ∈ exchanges.matches' :=
  mem_exchanges (.inr (Language.mem_mul.mpr ⟨[.flush], rfl, [.read], rfl, rfl⟩))

@[simp] theorem output_append : output (events ++ more) = output events ++ output more :=
  List.filterMap_append

@[simp] theorem answers_append : answers (events ++ more) = answers events ++ answers more :=
  List.filterMap_append

end Event

/-- What an instruction exchanges with the outside world where it succeeds. -/
def Opcode.exchange (s : State) : Opcode → List Event
  | write => [.wrote (s.tape.value s.tape.cursor)]
  | read => [.flushed, .received s.unread.head?]
  | loopEnd | incrVal | incrPtr | loopStart | decrVal | decrPtr => []

namespace State

variable {s t : State}

theorem events_emit (s : State) (e : Event) : (s.emit e).events = s.events ++ [e] := by
  simp [events, emit]

/-- Storing changes the tape and goes on. -/
theorem exists_of_store {tape? : Option Tape} (h : s.store tape? = .ok t) :
    ∃ tape, t = { s with tape }.next := by
  cases tape? with
  | none => cases h
  | some tape =>
      cases h
      exact ⟨tape, rfl⟩

theorem events_advance (s : State) : s.advance.events = s.events := by
  unfold advance
  dsimp only
  split <;> rfl

theorem events_openLoop (s : State) (i : Nat) : (s.openLoop i).events = s.events := by
  obtain ⟨_, h⟩ := s.openLoop_eq i
  rw [h]
  rfl

end State

namespace Machine

variable {m : Machine} {s t u : State} {op : Opcode} {n : Nat}

/-! ### What one step exchanges -/

/-- What the step from a state exchanges with the outside world. -/
def exchange (m : Machine) (s : State) : List Event :=
  match m.program.opcode? s.ip with
  | some op => op.exchange s
  | none => []

def written? (m : Machine) (s : State) : Option UInt8 :=
  if m.program.opcode? s.ip = some .write then some (s.tape.value s.tape.cursor) else none

def answer? (m : Machine) (s : State) : Option (Option UInt8) :=
  if m.program.opcode? s.ip = some .read then some s.unread.head? else none

/-- Taking a byte flushes and asks for one; besides, it changes the tape and the unread input. -/
theorem exists_of_receive (h : m.receive s = .ok t) :
    ∃ tape unread,
      t = { (s.emit .flushed).emit (.received s.unread.head?) with tape, unread }.next := by
  unfold receive at h
  simp only [State.unread_emit] at h
  cases hu : s.unread with
  | cons b rest =>
      rw [hu] at h
      obtain ⟨tape, rfl⟩ := State.exists_of_store h
      exact ⟨tape, rest, rfl⟩
  | nil =>
      rw [hu] at h
      cases hf : m.eof.fill? with
      | some b =>
          rw [hf] at h
          obtain ⟨tape, rfl⟩ := State.exists_of_store h
          exact ⟨tape, s.unread, rfl⟩
      | none =>
          rw [hf] at h
          cases h
          exact ⟨s.tape, s.unread, rfl⟩

theorem events_of_receive (h : m.receive s = .ok t) :
    t.events = s.events ++ [.flushed, .received s.unread.head?] := by
  obtain ⟨tape, unread, rfl⟩ := exists_of_receive h
  change ((s.emit .flushed).emit (.received s.unread.head?)).events = _
  rw [State.events_emit, State.events_emit, List.append_assoc]
  rfl

theorem events_of_perform (h : m.perform op s = .ok t) :
    t.events = s.events ++ op.exchange s := by
  cases op with
  | write =>
      simp only [perform, send] at h
      cases hcell : s.tape.current? with
      | none =>
          rw [hcell] at h
          cases h
      | some v =>
          rw [hcell] at h
          cases h
          rw [Opcode.exchange, (Tape.current?_eq_some_iff.mp hcell).2]
          exact s.events_emit (.wrote v)
  | read => exact events_of_receive h
  | incrVal =>
      obtain ⟨tape, rfl⟩ := State.exists_of_store h
      exact (List.append_nil _).symm
  | decrVal =>
      obtain ⟨tape, rfl⟩ := State.exists_of_store h
      exact (List.append_nil _).symm
  | incrPtr =>
      cases h
      exact s.events_advance.trans (List.append_nil _).symm
  | decrPtr =>
      cases h
      exact (List.append_nil _).symm
  | loopStart =>
      simp only [perform, enterLoop] at h
      split at h
      · cases h
      · split at h
        · split at h
          · cases h
            exact (List.append_nil _).symm
          · cases h
        · cases h
          exact (s.events_openLoop s.ip).trans (List.append_nil _).symm
  | loopEnd =>
      simp only [perform, closeLoop] at h
      split at h
      · cases h
      · cases h
        exact (List.append_nil _).symm
      · cases h
        exact (List.append_nil _).symm

/-- A step adds its exchange to those before it. -/
theorem events_of_step (hstep : m.step s = .ok t) : t.events = s.events ++ m.exchange s := by
  have hlt := unfinished_iff.mp (unfinished_of_step hstep)
  unfold exchange
  cases hop : m.program.opcode? s.ip with
  | none =>
      rw [step_inert hlt hop] at hstep
      cases hstep
      exact (List.append_nil _).symm
  | some op =>
      cases hden : m.denied? op s with
      | some f =>
          rw [step_denied hop hden] at hstep
          cases hstep
      | none =>
          rw [step_allowed hop hden] at hstep
          exact events_of_perform hstep

theorem exchange_mem_exchanges (m : Machine) (s : State) :
    (m.exchange s).map Event.kind ∈ Event.exchanges.matches' := by
  unfold exchange
  split
  · rename_i op _
    cases op with
    | write => exact Event.write_mem_exchanges
    | read => exact Event.read_mem_exchanges
    | _ => exact Event.nil_mem_exchanges
  · exact Event.nil_mem_exchanges

theorem output_exchange (m : Machine) (s : State) :
    Event.output (m.exchange s) = (m.written? s).toList := by
  unfold exchange written?
  cases m.program.opcode? s.ip with
  | none => rfl
  | some op => cases op <;> rfl

theorem answers_exchange (m : Machine) (s : State) :
    Event.answers (m.exchange s) = (m.answer? s).toList := by
  unfold exchange answer?
  cases m.program.opcode? s.ip with
  | none => rfl
  | some op => cases op <;> rfl

/-! ### What a run exchanges -/

/-- The states from which the first `n` steps are made, in order. A step that fails is none. -/
def executed (m : Machine) : (n : Nat) → State → List State
  | 0, _ => []
  | n + 1, s =>
    match m.step s with
    | .ok t => s :: m.executed n t
    | .error _ => []

theorem executed_of_ok (hstep : m.step s = .ok t) (n : Nat) :
    m.executed (n + 1) s = s :: m.executed n t := by
  simp only [executed, hstep]

theorem Path.length_executed (hp : m.Path s n t) : (m.executed n s).length = n := by
  induction n generalizing s with
  | zero => rfl
  | succ n ih =>
      obtain ⟨u, hstep, rest⟩ := hp.uncons
      rw [executed_of_ok hstep, List.length_cons, ih rest]

/-- The last state that an execution makes a step from comes last. -/
theorem Path.executed_succ (hp : m.Path s n u) (hstep : m.step u = .ok t) :
    m.executed (n + 1) s = m.executed n s ++ [u] := by
  induction n generalizing s with
  | zero =>
      rw [zero_iff.mp hp] at hstep ⊢
      exact executed_of_ok hstep 0
  | succ n ih =>
      obtain ⟨v, hfirst, rest⟩ := hp.uncons
      rw [executed_of_ok hfirst, executed_of_ok hfirst, ih rest, List.cons_append]

/-- The exchanges of an execution are those of its steps, in order. -/
theorem Path.events (hp : m.Path s n t) :
    t.events = s.events ++ (m.executed n s).flatMap m.exchange := by
  induction n generalizing s with
  | zero =>
      rw [zero_iff.mp hp]
      exact (List.append_nil _).symm
  | succ n ih =>
      obtain ⟨u, hstep, rest⟩ := hp.uncons
      rw [executed_of_ok hstep, List.flatMap_cons, ih rest, events_of_step hstep,
        List.append_assoc]

/-- Whichever steps are made, their exchanges with a flush behind them are a dialogue. -/
theorem dialogue_of_exchanges (m : Machine) (states : List State) :
    (states.flatMap m.exchange ++ [Event.flushed]).map Event.kind ∈ Event.dialogue.matches' := by
  have hword : (states.flatMap m.exchange).map Event.kind ∈ Event.exchanges.matches' := by
    induction states with
    | nil => exact Event.nil_mem_exchanges
    | cons s states ih =>
        rw [List.flatMap_cons, List.map_append]
        exact Event.append_mem_exchanges (m.exchange_mem_exchanges s) ih
  rw [List.map_append]
  exact Language.append_mem_mul hword rfl

theorem output_exchanges (m : Machine) (states : List State) :
    Event.output (states.flatMap m.exchange) = states.filterMap m.written? := by
  induction states with
  | nil => rfl
  | cons s states ih =>
      rw [List.flatMap_cons, Event.output_append, output_exchange, ih, List.filterMap_cons]
      cases m.written? s <;> rfl

theorem answers_exchanges (m : Machine) (states : List State) :
    Event.answers (states.flatMap m.exchange) = states.filterMap m.answer? := by
  induction states with
  | nil => rfl
  | cons s states ih =>
      rw [List.flatMap_cons, Event.answers_append, answers_exchange, ih, List.filterMap_cons]
      cases m.answer? s <;> rfl

/-- The reads of an execution are answered by the input from its beginning, each byte once. -/
theorem Path.answers (hp : m.Path s n t) (valid : m.Valid s) :
    (m.executed n s).filterMap m.answer? =
      (List.range (m.reads n s)).map fun i => s.unread[i]? := by
  induction n generalizing s with
  | zero => rfl
  | succ n ih =>
      obtain ⟨u, hstep, rest⟩ := hp.uncons
      have hunread := (move_of_step valid.sheltered hstep).unread
      rw [executed_of_ok hstep, reads_of_ok hstep, List.filterMap_cons,
        ih rest (valid.step hstep), hunread]
      by_cases hop : m.program.opcode? s.ip = some .read
      · rw [answer?, readsNext, if_pos hop, if_pos hop, Nat.add_comm,
          List.range_succ_eq_map, List.map_cons, List.map_map, List.head?_eq_getElem?]
        simp [Function.comp_def]
      · rw [answer?, readsNext, if_neg hop, if_neg hop]
        simp

theorem Path.unread (hp : m.Path s n t) (valid : m.Valid s) :
    t.unread = s.unread.drop (m.reads n s) := by
  have hstate : (m.proceed n s).state = t := by
    rw [← Nat.add_zero n, proceed_add hp, proceed]
    split <;> rfl
  rw [← hstate, unread_proceed valid]

/-- However a run ends, its exchanges with the outside world are those of the steps that it made
and one flush at the end; an instruction that failed has none. They are a dialogue: each read
comes right after a flush, and there is no other flush but the last. What was written are the
cells under the cursor at the executed writes, and it is the output. The answers are those to the
executed reads: the bytes of the input in order, and its end from then on; the rest of the input
is unread. -/
theorem output_is_flushed_before_input {size : Int} {cells : Nat}
    (valid : StepSize.ofInt size = .ok cells) (m : Machine) (input : List UInt8)
    {fuel : Nat} {limit : Option Int} {r : Except Halt State}
    (hrun : m.run? fuel limit (State.initial cells input) = some r) :
    let start := State.initial cells input
    ∃ n u last, m.Path start n u ∧ (m.executed n start).length = n ∧ last = u.emit .flushed ∧
      ((m.finished u = true ∧ r = .ok last) ∨ ∃ f, r = .error ⟨f, last⟩ ∧
        (m.step u = .error ⟨f, u⟩ ∨ ∃ l, limit = some l ∧ f = .stepLimit u.ip l)) ∧
      last.events = (m.executed n start).flatMap m.exchange ++ [.flushed] ∧
      last.events.map Event.kind ∈ Event.dialogue.matches' ∧
      Event.output last.events = (m.executed n start).filterMap m.written? ∧
      last.output = (m.executed n start).filterMap m.written? ∧
      Event.answers last.events = (m.executed n start).filterMap m.answer? ∧
      Event.answers last.events = (List.range (m.reads n start)).map (fun i => input[i]?) ∧
      last.unread = input.drop (m.reads n start) := by
  intro start
  have pos : 0 < cells := (StepSize.ofInt_eq_ok_iff.mp valid).2.1
  have hstart : m.Valid start := valid_initial m pos input
  obtain ⟨n, u, hp, ending⟩ := run_cases hstart hrun
  have hevents : (u.emit .flushed).events =
      (m.executed n start).flatMap m.exchange ++ [.flushed] := by
    rw [State.events_emit, hp.events]
    rfl
  have houtput : Event.output (u.emit .flushed).events =
      (m.executed n start).filterMap m.written? := by
    rw [hevents, Event.output_append, output_exchanges]
    exact List.append_nil _
  have hanswers : Event.answers (u.emit .flushed).events =
      (m.executed n start).filterMap m.answer? := by
    rw [hevents, Event.answers_append, answers_exchanges]
    exact List.append_nil _
  refine ⟨n, u, u.emit .flushed, hp, hp.length_executed, rfl, ?_, hevents, ?_, houtput, houtput,
    hanswers, ?_, ?_⟩
  · obtain ⟨hend, hr⟩ | ⟨f, -, fails, hr⟩ | ⟨l, hlimit, -, hr⟩ := ending
    · exact .inl ⟨hend, hr⟩
    · exact .inr ⟨f, hr, .inl (step_of_fails fails)⟩
    · exact .inr ⟨_, hr, .inr ⟨l, hlimit, rfl⟩⟩
  · rw [hevents]
    exact m.dialogue_of_exchanges _
  · rw [hanswers]
    exact hp.answers hstart
  · exact hp.unread hstart

/-- The program `,.,<+` on one cell and the input byte 9 reads the byte, writes it, finds the
input at its end and fails at the last instruction, which exchanges nothing. -/
theorem dialogue_of_failing_echo :
    let m : Machine := { program := #[7, 0, 7, 6, 2], policy := .strict, eof := .zero }
    ∃ h, m.run? 5 none (State.initial 1 [9]) = some (.error h) ∧
      h.fault = .outOfBounds 4 4294967295 1 ∧
      h.state.events =
        [.flushed, .received (some 9), .wrote 9, .flushed, .received none, .flushed] ∧
      h.state.events.map Event.kind ∈ Event.dialogue.matches' ∧
      Event.answers h.state.events = (List.range 2).map (fun i => [(9 : UInt8)][i]?) := by
  intro m
  obtain ⟨h, hrun, hfault, hevents⟩ : ∃ h, m.run? 5 none (State.initial 1 [9]) = some (.error h) ∧
      h.fault = .outOfBounds 4 4294967295 1 ∧ h.state.events =
        [.flushed, .received (some 9), .wrote 9, .flushed, .received none, .flushed] :=
    ⟨_, rfl, rfl, rfl⟩
  have valid : StepSize.ofInt 1 = .ok 1 := rfl
  obtain ⟨n, u, last, -, -, -, ending, -, dialogue, -, -, -, answers, -⟩ :=
    output_is_flushed_before_input valid m [9] hrun
  obtain ⟨-, hok⟩ | ⟨f, herror, -⟩ := ending
  · cases hok
  · cases herror
    refine ⟨_, hrun, hfault, hevents, dialogue, ?_⟩
    have hcount := congrArg List.length answers
    rw [hevents, List.length_map, List.length_range] at hcount
    rw [answers, ← hcount]
    rfl

end Machine

end NibTape

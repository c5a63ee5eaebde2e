import Mathlib.Data.List.DropRight
import NibTape.Proofs.Growth
import NibTape.Proofs.LinearLoop

/-!
# Cells and their history

What a cell holds follows from the steps that were made with the cursor on it, and from nothing
else. The last read among them that stored a byte makes all before it irrelevant; from then on,
or from the beginning, each increment adds one and each decrement takes one away, modulo 256.

The history of a run is the list of the states that its steps were made from, in order. One step
adds one state at its end, and it changes the account of each cell as it changes the cell. Moves
and the growth of the tape have no place in this, and a cell that is new on the tape has had no
history, so it is zero.
-/

namespace NibTape

/-- An instruction adds its gain to the cell under the cursor and nothing to any other, unless it
is a read that gets a byte. -/
theorem Scene.value_obey_modEq {policy : Policy} {eof : EndOfInput} {op : Opcode} {i : Nat}
    (w : Scene) (nothing : op = .read → w.tape.cursor = i → eof.stream w.unread 0 = none) :
    (((w.obey policy eof op).tape.value i).toNat : Int) ≡
      (w.tape.value i).toNat + (if w.tape.cursor = i then op.gain else 0) [ZMOD 256] := by
  by_cases hi : w.tape.cursor = i
  · subst hi
    rw [if_pos rfl]
    cases op with
    | incrVal =>
        rw [obey, put, Tape.value_set, if_pos rfl]
        exact modEq_add_one _
    | decrVal =>
        rw [obey, put, Tape.value_set, if_pos rfl]
        exact modEq_sub_one _
    | read =>
        rw [obey, receive_eq, nothing rfl rfl, Opcode.gain, Int.add_zero]
    | _ =>
        rw [Opcode.gain, Int.add_zero, value_obey w]
        rintro ⟨⟩
  · rw [value_obey w fun _ => hi, if_neg hi, Int.add_zero]

namespace Machine

variable {m : Machine} {start s t u : State} {past front rest : List State}
variable {b : UInt8} {i n cells : Nat}

/-- The byte that the step from a state stores in a cell, if it is a read with the cursor there.
At the end of the input there may be none to store. -/
def stored? (m : Machine) (i : Nat) (u : State) : Option UInt8 :=
  if m.program.opcode? u.ip = some .read ∧ u.tape.cursor = i then
    match u.unread, m.eof with
    | b :: _, _ => some b
    | [], .allOnes => some 0xFF
    | [], .zero => some 0
    | [], .unchanged => none
  else none

/-- The byte that the last read stored in a cell; without such a read, zero. -/
def lastStored (m : Machine) (i : Nat) (past : List State) : UInt8 :=
  (past.filterMap (m.stored? i)).getLast?.getD 0

/-- The steps behind the last read that stored a byte in a cell. -/
def sinceStored (m : Machine) (i : Nat) (past : List State) : List State :=
  past.rtakeWhile fun u => (m.stored? i u).isNone

def countAt (m : Machine) (op : Opcode) (i : Nat) (past : List State) : Nat :=
  past.countP fun u => m.program.opcode? u.ip == some op && u.tape.cursor == i

/-- What a cell holds after a history: the byte that was last read into it, and the increments
less the decrements since then, modulo 256. -/
def account (m : Machine) (i : Nat) (past : List State) : Int :=
  ((m.lastStored i past).toNat + m.countAt .incrVal i (m.sinceStored i past) -
    m.countAt .decrVal i (m.sinceStored i past)) % 256

def gainAt (m : Machine) (i : Nat) (u : State) : Int :=
  if u.tape.cursor = i then ((m.program.opcode? u.ip).map Opcode.gain).getD 0 else 0

/-! ### What one step does to a cell -/

theorem stored?_eq (m : Machine) (i : Nat) (u : State) :
    m.stored? i u =
      if m.program.opcode? u.ip = some .read ∧ u.tape.cursor = i then m.eof.stream u.unread 0
      else none := by
  unfold stored? EndOfInput.stream
  cases u.unread with
  | cons b rest => rfl
  | nil => cases m.eof <;> rfl

theorem stored?_eq_some_iff :
    m.stored? i u = some b ↔
      m.program.opcode? u.ip = some .read ∧ u.tape.cursor = i ∧
        m.eof.stream u.unread 0 = some b := by
  rw [stored?_eq]
  split <;> simp_all

theorem stored?_eq_none_iff :
    m.stored? i u = none ↔
      (m.program.opcode? u.ip = some .read → u.tape.cursor = i →
        m.eof.stream u.unread 0 = none) := by
  rw [stored?_eq]
  split <;> simp_all

theorem Move.value_of_stored (move : m.Move s t) (h : m.stored? i s = some b) :
    t.tape.value i = b := by
  obtain ⟨hop, hcursor, hb⟩ := stored?_eq_some_iff.mp h
  rw [← State.scene_tape, move.scene, hop]
  simp only [Scene.obey, Scene.receive_eq, State.scene_unread, hb, State.scene_tape]
  rw [Tape.value_set, if_pos hcursor.symm]

theorem Move.value_modEq (move : m.Move s t) (h : m.stored? i s = none) :
    ((t.tape.value i).toNat : Int) ≡ (s.tape.value i).toNat + m.gainAt i s [ZMOD 256] := by
  have nothing := stored?_eq_none_iff.mp h
  rw [← State.scene_tape, move.scene, gainAt]
  cases hop : m.program.opcode? s.ip with
  | none => simp
  | some op =>
      exact s.scene.value_obey_modEq fun hread => nothing (hread ▸ hop)

/-! ### What one step adds to the account -/

theorem account_concat_of_stored (past : List State) (h : m.stored? i u = some b) :
    m.account i (past ++ [u]) = b.toNat := by
  have hlast : m.lastStored i (past ++ [u]) = b := by
    simp [lastStored, h]
  have hsince : m.sinceStored i (past ++ [u]) = [] := by
    rw [sinceStored, List.rtakeWhile_concat, h]
    rfl
  have hb := b.toNat_lt
  rw [account, hlast, hsince]
  simp only [countAt, List.countP_nil]
  omega

theorem countAt_concat (op : Opcode) (past : List State) :
    m.countAt op i (past ++ [u]) = m.countAt op i past +
      if m.program.opcode? u.ip = some op ∧ u.tape.cursor = i then 1 else 0 := by
  rw [countAt, List.countP_append, List.countP_singleton]
  simp [countAt]

theorem account_concat_modEq (past : List State) (h : m.stored? i u = none) :
    m.account i (past ++ [u]) ≡ m.account i past + m.gainAt i u [ZMOD 256] := by
  have hlast : m.lastStored i (past ++ [u]) = m.lastStored i past := by
    simp [lastStored, h]
  have hsince : m.sinceStored i (past ++ [u]) = m.sinceStored i past ++ [u] := by
    rw [sinceStored, List.rtakeWhile_concat, h]
    rfl
  rw [account, account, hlast, hsince, countAt_concat, countAt_concat, gainAt]
  unfold Int.ModEq
  by_cases hi : u.tape.cursor = i
  · simp only [hi, and_true, if_true]
    cases m.program.opcode? u.ip with
    | none =>
        simp
    | some op =>
        cases op <;> simp [Opcode.gain] <;> omega
  · simp [hi]

theorem account_emod (m : Machine) (i : Nat) (past : List State) :
    m.account i past % 256 = m.account i past := Int.emod_emod_of_dvd _ (Int.dvd_refl _)

/-! ### What a run does -/

/-- A step changes the account of a cell as it changes the cell. -/
theorem Move.account (move : m.Move s t)
    (h : ((s.tape.value i).toNat : Int) = m.account i past) :
    ((t.tape.value i).toNat : Int) = m.account i (past ++ [s]) := by
  cases hstored : m.stored? i s with
  | some b => rw [account_concat_of_stored past hstored, move.value_of_stored hstored]
  | none =>
      have hvalue := move.value_modEq hstored
      rw [h] at hvalue
      have both := hvalue.trans (account_concat_modEq past hstored).symm
      -- both sides are bytes, so they are equal if they agree modulo 256
      have hlt := (t.tape.value i).toNat_lt
      rw [Int.ModEq, account_emod] at both
      omega

theorem Path.account {input : List UInt8} (hp : m.Path (State.initial cells input) n s)
    (pos : 0 < cells) (i : Nat) :
    ((s.tape.value i).toNat : Int) =
      m.account i (m.executed n (State.initial cells input)) := by
  induction hp with
  | start =>
      have hzero : (State.initial cells input).tape.value i = 0 := Tape.value_blank cells i
      rw [hzero]
      rfl
  | next before hstep ih =>
      have hu := before.valid (valid_initial m pos input)
      rw [before.executed_succ hstep]
      exact (move_of_step hu.sheltered hstep).account ih

/-- A run writes what its steps write. -/
theorem Path.output (hp : m.Path s n t) :
    t.output = s.output ++ (m.executed n s).filterMap m.written? := by
  rw [State.output, hp.events, Event.output_append, output_exchanges]
  rfl

/-- What stands in a history was come to by the steps in front of it. -/
theorem exists_path_of_executed (h : m.executed n s = front ++ u :: rest) :
    m.Path s front.length u ∧ m.executed front.length s = front := by
  induction front generalizing n s with
  | nil =>
      cases n with
      | zero => cases h
      | succ n =>
          rw [executed] at h
          split at h
          · cases h
            exact ⟨.start, rfl⟩
          · cases h
  | cons v front ih =>
      cases n with
      | zero => cases h
      | succ n =>
          rw [executed] at h
          split at h
          · rename_i t hstep
            rw [List.cons_append, List.cons.injEq] at h
            obtain ⟨rfl, h⟩ := h
            obtain ⟨hp, hfront⟩ := ih h
            exact ⟨hp.cons hstep, by rw [List.length_cons, executed_of_ok hstep, hfront]⟩
          · cases h

/-- In every state that steps, runs and their failures lead to, each cell of the tape holds what
the history of the steps says: the byte that the last read with the cursor on it stored, or zero,
and the increments less the decrements that were made on it since then, modulo 256. An
instruction that stores nothing, or stores elsewhere, leaves a cell as it is, and one that fails
leaves all of them. The output is what the executed writes have written, and each of them has
written what the history in front of it says of the cell under the cursor. -/
theorem cells_follow_from_history {size : Int} {cells : Nat}
    (valid : StepSize.ofInt size = .ok cells) (m : Machine) (input : List UInt8) (s : State)
    (reachable : m.Reachable (State.initial cells input) s) :
    let past := m.executed s.steps (State.initial cells input)
    past.length = s.steps ∧
    (∀ i < s.tape.length, ∃ v, s.tape.cell? i = some v ∧
      (v.toNat : Int) = ((m.lastStored i past).toNat +
        m.countAt .incrVal i (m.sinceStored i past) -
          m.countAt .decrVal i (m.sinceStored i past)) % 256) ∧
    (∀ t, m.step s = .ok t → ∀ i < s.tape.length,
      (∀ op, m.program.opcode? s.ip = some op → op.stores = true → s.tape.cursor ≠ i) →
        t.tape.cell? i = s.tape.cell? i) ∧
    (∀ h, m.step s = .error h → h.state.tape = s.tape) ∧
    s.output = past.filterMap m.written? ∧
    ∀ front u rest b, past = front ++ u :: rest → m.written? u = some b →
      (b.toNat : Int) = m.account u.tape.cursor front := by
  intro past
  have pos : 0 < cells := (StepSize.ofInt_eq_ok_iff.mp valid).2.1
  have hstart : m.Valid (State.initial cells input) := valid_initial m pos input
  have hs : m.Valid s := reachable.valid hstart
  obtain ⟨n, u, hp, beside, -⟩ := reachable.exists_path hstart
  have hsteps : s.steps = n := by
    rw [beside.steps, hp.steps hstart]
    exact Nat.zero_add n
  have hpast : past = m.executed n (State.initial cells input) := by
    rw [← hsteps]
  refine ⟨?_, ?_, ?_, ?_, ?_, ?_⟩
  · rw [hpast, hp.length_executed, hsteps]
  · intro i hi
    refine ⟨s.tape.value i, by simp [Tape.cell?, hi], ?_⟩
    rw [beside.tape, hp.account pos i, ← hpast]
    rfl
  · intro t hstep i hi untouched
    have move := move_of_step hs.sheltered hstep
    have hlength := move.length_eq hs.tape
    have hi' : i < t.tape.length := by
      split at hlength <;> omega
    rw [Tape.cell?, Tape.cell?, if_pos hi, if_pos hi', move.value untouched]
  · intro h hstep
    rw [(fails_of_step hs.sheltered hstep).1]
  · rw [beside.output, hp.output, hpast]
    rfl
  · intro front v rest b hfront hwritten
    rw [hpast] at hfront
    obtain ⟨hv, hexecuted⟩ := exists_path_of_executed hfront
    have haccount := hv.account pos v.tape.cursor
    rw [hexecuted] at haccount
    rw [← haccount]
    unfold written? at hwritten
    split at hwritten
    · cases hwritten
      rfl
    · cases hwritten

/-- The program `+,+++>,-<,.` on one cell and the input byte 254, where the end of the input leaves
a cell alone. The first increment is undone by the read; three more make 257, which is 1. The read
of the second cell, which is new, stores nothing, and neither does the last read. -/
theorem history_of_two_cells :
    let m : Machine :=
      { program := #[2, 7, 2, 2, 2, 3, 7, 5, 6, 7, 0], policy := .strict, eof := .unchanged }
    ∃ s, m.Reachable (State.initial 1 [254]) s ∧ s.steps = 11 ∧
      s.tape.cell? 0 = some 1 ∧ s.tape.cell? 1 = some 255 ∧ s.output = [1] := by
  intro m
  obtain ⟨s, hrun, hsteps, hlength⟩ : ∃ s, m.run? 20 none (State.initial 1 [254]) = some (.ok s) ∧
      s.steps = 11 ∧ s.tape.length = 2 := ⟨_, rfl, rfl, rfl⟩
  have reachable : m.Reachable (State.initial 1 [254]) s := .ran .fresh hrun
  have valid : StepSize.ofInt 1 = .ok 1 := rfl
  obtain ⟨-, cells, -, -, output, -⟩ := cells_follow_from_history valid m [254] s reachable
  rw [hsteps] at cells output
  have one : m.account 0 (m.executed 11 (State.initial 1 [254])) = (1 : UInt8).toNat := by
    decide +kernel
  have less : m.account 1 (m.executed 11 (State.initial 1 [254])) = (255 : UInt8).toNat := by
    decide +kernel
  obtain ⟨v, hv, first⟩ := cells 0 (by omega)
  obtain ⟨w, hw, second⟩ := cells 1 (by omega)
  have hv' : v = 1 := UInt8.toNat_inj.mp (Int.ofNat.inj (first.trans one))
  have hw' : w = 255 := UInt8.toNat_inj.mp (Int.ofNat.inj (second.trans less))
  have written : (m.executed 11 (State.initial 1 [254])).filterMap m.written? = [1] := rfl
  rw [hv'] at hv
  rw [hw'] at hw
  exact ⟨s, reachable, hsteps, hv, hw, output.trans written⟩

end Machine

end NibTape

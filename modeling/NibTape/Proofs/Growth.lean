import Mathlib.Order.Bounds.Basic
import NibTape.Proofs.Budget

/-!
# How far a tape grows

A tape grows by a whole step, and only when a move right leaves its last cell. So its length
says how far its cursor ever came on it: the length is the least whole number of steps that
has room for the furthest cell on which the cursor stood.

Growth compares the cursor with the length for equality, and the strict policy lets the cursor
stand far outside the tape, from where it can come back over either end. Neither makes the tape
grow, because the position next to the length is reached by a move right from the last cell
alone. A cell that no instruction stored to is still zero.
-/

namespace NibTape

/-- Whether an instruction stores a value in its cell. A read at the end of the input does so
only if there is a byte that stands for it. -/
def Opcode.stores : Opcode → Bool
  | incrVal | decrVal | read => true
  | write | loopEnd | incrPtr | loopStart | decrPtr => false

namespace Tape

/-- The furthest cell on which a cursor stood, if it was `top` before the cursor came to where
it is on this tape. -/
def further (t : Tape) (top : Nat) : Nat :=
  if t.cursor < t.length then max top t.cursor else top

/-- A tape of whole steps that ends in the step of its cell `top`. -/
structure EndsAt (cells top : Nat) (t : Tape) : Prop where
  stepSize : t.stepSize = cells
  whole : cells ∣ t.length
  inside : top < t.length
  needed : t.length ≤ top + cells

variable {t u : Tape} {cells top i : Nat}

theorem value_set_of_ne (h : t.cursor ≠ i) (v : UInt8) : (t.set v).value i = t.value i := by
  rw [value_set, if_neg h.symm]

/-- A move right grows a tape from its last cell, and from nowhere else. From the last position
that a cursor has, it goes to the first cell instead. -/
theorem growsOnAdvance_iff (sound : t.Sound) :
    t.growsOnAdvance = true ↔ t.cursor + 1 = t.length ∧ t.length < span := by
  have hlength := sound.length
  have hcursor := sound.cursor
  simp only [growsOnAdvance, beq_iff_eq]
  by_cases hlast : t.cursor + 1 = span
  · rw [hlast, Nat.mod_self]
    omega
  · rw [Nat.mod_eq_of_lt (by omega)]
    omega

namespace EndsAt

theorem blank (pos : 0 < cells) : (blank cells).EndsAt cells 0 :=
  ⟨rfl, Nat.dvd_refl cells, pos, Nat.le_add_left cells 0⟩

/-- The length is the number of steps up to the one that holds `top`. -/
theorem length_eq (ends : t.EndsAt cells top) : t.length = cells * (top / cells + 1) := by
  obtain ⟨steps, hsteps⟩ := ends.whole
  have hinside := ends.inside
  have hneeded := ends.needed
  obtain _ | before := steps
  · omega
  · rw [Nat.mul_succ] at hsteps
    have hlow : before * cells ≤ top := by
      rw [Nat.mul_comm]
      omega
    have hhigh : top < (before + 1) * cells := by
      rw [Nat.mul_comm, Nat.mul_succ]
      omega
    rw [Nat.div_eq_of_lt_le hlow hhigh, hsteps, Nat.mul_succ]

/-- A tape of the same length ends where it did, also if its cursor has come further on it. -/
theorem of_length (ends : t.EndsAt cells top) (length : u.length = t.length)
    (stepSize : u.stepSize = t.stepSize) : u.EndsAt cells (u.further top) := by
  have hinside := ends.inside
  have hneeded := ends.needed
  have hbetween : top ≤ u.further top ∧ u.further top < t.length := by
    unfold further
    split <;> omega
  refine ⟨stepSize.trans ends.stepSize, length ▸ ends.whole, ?_, ?_⟩
  · omega
  · omega

/-- A tape that grows has its cursor on the first of the new cells. -/
theorem advance (ends : t.EndsAt cells top) (sound : t.Sound) :
    t.advance.EndsAt cells (t.advance.further top) := by
  cases hgrow : t.growsOnAdvance with
  | false =>
      apply ends.of_length
      · rw [length_advance, hgrow]
        rfl
      · exact stepSize_advance t
  | true =>
      obtain ⟨hlast, hspan⟩ := (growsOnAdvance_iff sound).mp hgrow
      have hinside := ends.inside
      have hcells : 0 < cells := ends.stepSize ▸ sound.stepSize
      have hlength : t.advance.length = t.length + cells := by
        rw [length_advance, hgrow, if_pos rfl, ends.stepSize]
      have hcursor : t.advance.cursor = t.length := by
        rw [cursor_advance, hlast, Nat.mod_eq_of_lt hspan]
      have hfurther : t.advance.further top = t.length := by
        unfold further
        rw [hcursor, hlength, if_pos (by omega)]
        omega
      refine ⟨(stepSize_advance t).trans ends.stepSize, ?_, ?_, ?_⟩
      · rw [hlength]
        exact Nat.dvd_add ends.whole (Nat.dvd_refl cells)
      · omega
      · omega

end EndsAt

end Tape

namespace Scene

variable {policy : Policy} {eof : EndOfInput} {op : Opcode}

/-- Only a move right changes the length of the tape. -/
theorem length_obey (w : Scene) (h : op ≠ .incrPtr) :
    (w.obey policy eof op).tape.length = w.tape.length := by
  cases op with
  | incrPtr => exact (h rfl).elim
  | decrPtr => exact Policy.length_retreat policy
  | read =>
      rw [obey, receive_eq]
      split <;> rfl
  | _ => rfl

/-- A cell keeps its value unless the cursor is on it and the instruction stores. -/
theorem value_obey (w : Scene) {i : Nat} (h : op.stores = true → w.tape.cursor ≠ i) :
    (w.obey policy eof op).tape.value i = w.tape.value i := by
  cases op with
  | incrPtr => exact Tape.value_advance w.tape i
  | decrPtr => exact Policy.value_retreat policy i
  | incrVal => exact Tape.value_set_of_ne (h rfl) _
  | decrVal => exact Tape.value_set_of_ne (h rfl) _
  | read =>
      rw [obey, receive_eq]
      split
      · exact Tape.value_set_of_ne (h rfl) _
      · rfl
  | _ => rfl

end Scene

namespace Machine

variable {m : Machine} {start s t : State} {n i cells top : Nat}

/-- The cells on which the cursor stood in the first `n` steps, before and after each. -/
def footing (m : Machine) (start : State) (n : Nat) : Set Nat :=
  {c | ∃ k ≤ n, ∃ u, m.Path start k u ∧ u.tape.cursor < u.tape.length ∧ u.tape.cursor = c}

/-- The furthest cell after another step is the one before it or the one under the cursor. -/
theorem isGreatest_footing (hp : m.Path start (n + 1) t)
    (greatest : IsGreatest (m.footing start n) top) :
    IsGreatest (m.footing start (n + 1)) (t.tape.further top) := by
  obtain ⟨⟨k, hk, u, hu, hhoused, htop⟩, hbound⟩ := greatest
  have before : top ∈ m.footing start (n + 1) := ⟨k, by omega, u, hu, hhoused, htop⟩
  have now : t.tape.cursor < t.tape.length → t.tape.cursor ∈ m.footing start (n + 1) :=
    fun housed => ⟨n + 1, Nat.le_refl _, t, hp, housed, rfl⟩
  constructor
  · unfold Tape.further
    split
    · rename_i housed
      rcases Nat.le_total top t.tape.cursor with hle | hle
      · rw [Nat.max_eq_right hle]
        exact now housed
      · rw [Nat.max_eq_left hle]
        exact before
    · exact before
  · rintro c ⟨j, hj, v, hv, housed, rfl⟩
    rcases Nat.lt_or_ge j (n + 1) with hlt | hge
    · have := hbound ⟨j, Nat.le_of_lt_succ hlt, v, hv, housed, rfl⟩
      unfold Tape.further
      split <;> omega
    · have hjn : j = n + 1 := Nat.le_antisymm hj hge
      subst hjn
      obtain rfl := hp.unique hv
      unfold Tape.further
      rw [if_pos housed]
      exact Nat.le_max_right _ _

theorem Move.length (move : m.Move s t) (h : m.program.opcode? s.ip ≠ some .incrPtr) :
    t.tape.length = s.tape.length := by
  rw [← State.scene_tape, move.scene]
  cases hop : m.program.opcode? s.ip with
  | none => rfl
  | some op =>
      apply Scene.length_obey
      rintro rfl
      exact h hop

theorem Move.advance (move : m.Move s t) (hop : m.program.opcode? s.ip = some .incrPtr) :
    t.tape = s.tape.advance := by
  rw [← State.scene_tape, move.scene, hop]
  rfl

theorem Move.value (move : m.Move s t)
    (h : ∀ op, m.program.opcode? s.ip = some op → op.stores = true → s.tape.cursor ≠ i) :
    t.tape.value i = s.tape.value i := by
  rw [← State.scene_tape, move.scene]
  cases hop : m.program.opcode? s.ip with
  | none => rfl
  | some op => exact Scene.value_obey _ (h op hop)

theorem Move.stepSize (move : m.Move s t) : t.tape.stepSize = s.tape.stepSize :=
  move.keeps_tape (P := fun u => u.stepSize = s.tape.stepSize)
    (fun u h => (Tape.stepSize_advance u).trans h)
    (fun _ h => (Policy.stepSize_retreat m.policy).trans h) (fun _ _ h => h) rfl

/-- The length after a step: it grows at a move right from the last cell, and only there. -/
theorem Move.length_eq (move : m.Move s t) (sound : s.tape.Sound) :
    t.tape.length =
      if m.program.opcode? s.ip = some .incrPtr ∧ s.tape.cursor + 1 = s.tape.length ∧
        s.tape.length < Tape.span
      then s.tape.length + s.tape.stepSize else s.tape.length := by
  by_cases hop : m.program.opcode? s.ip = some .incrPtr
  · rw [move.advance hop, Tape.length_advance]
    simp only [hop, true_and, Tape.growsOnAdvance_iff sound]
  · rw [move.length hop, if_neg fun h => hop h.1]

theorem Move.endsAt (move : m.Move s t) (sound : s.tape.Sound)
    (ends : s.tape.EndsAt cells top) : t.tape.EndsAt cells (t.tape.further top) := by
  by_cases hop : m.program.opcode? s.ip = some .incrPtr
  · rw [move.advance hop]
    exact ends.advance sound
  · exact ends.of_length (move.length hop) move.stepSize

/-- The tape ends in the step of the furthest cell on which its cursor stood. -/
theorem Path.endsAt {input : List UInt8} (pos : 0 < cells)
    (hp : m.Path (State.initial cells input) n s) :
    ∃ top, IsGreatest (m.footing (State.initial cells input) n) top ∧
      s.tape.EndsAt cells top := by
  induction hp with
  | start =>
      refine ⟨0, ⟨⟨0, Nat.le_refl 0, _, .start, pos, rfl⟩, ?_⟩, .blank pos⟩
      rintro c ⟨k, hk, u, hu, -, rfl⟩
      rw [Nat.le_zero.mp hk, Path.zero_iff] at hu
      rw [hu]
      exact Nat.le_refl 0
  | @next n u t before hstep ih =>
      obtain ⟨top, greatest, ends⟩ := ih
      have valid := before.valid (valid_initial m pos input)
      have move := move_of_step valid.sheltered hstep
      exact ⟨_, isGreatest_footing (before.next hstep) greatest, move.endsAt valid.tape ends⟩

/-- A cell that no step stored to has the value it had at first. -/
theorem Path.value (valid : m.Valid start) (hp : m.Path start n s)
    (untouched : ∀ k < n, ∀ u op, m.Path start k u → m.program.opcode? u.ip = some op →
      op.stores = true → u.tape.cursor ≠ i) :
    s.tape.value i = start.tape.value i := by
  induction hp with
  | start => rfl
  | @next n u t before hstep ih =>
      have move := move_of_step (before.valid valid).sheltered hstep
      have hlast : t.tape.value i = u.tape.value i :=
        move.value fun op hop => untouched n (Nat.lt_succ_self n) u op before hop
      rw [hlast]
      exact ih fun k hk => untouched k (Nat.lt_succ_of_lt hk)

/-- Wherever a machine was driven to, an execution from its first state goes, but for the
moments at which output was passed on. -/
theorem Reachable.exists_path (reachable : m.Reachable start s) (valid : m.Valid start) :
    ∃ n u, m.Path start n u ∧ s.SameButFlushes u := by
  refine (reachable.keeps (P := fun s => ∃ n u, m.Path start n u ∧ s.SameButFlushes u)
    valid ?_ ?_ ⟨0, start, .start, ⟨rfl, rfl, rfl, rfl, rfl⟩, rfl⟩).2
  · rintro s t hs ⟨n, u, hp, beside, hunread⟩ hstep
    have fed : m.eof.stream s.unread 0 = m.eof.stream u.unread 0 := by rw [hunread]
    obtain ⟨t', v, ht, hv, after, htail, htail'⟩ | ⟨f, hfails, -⟩ :=
      step_beside hs.sheltered beside fun _ _ => fed
    · rw [hstep] at ht
      cases ht
      exact ⟨n + 1, v, hp.next hv, after, by rw [htail, htail', hunread]⟩
    · rw [hstep] at hfails
      cases hfails
  · rintro s ⟨n, u, hp, beside, hunread⟩
    refine ⟨n, u, hp, ⟨beside.ip, beside.steps, beside.tape, beside.loops, ?_⟩, hunread⟩
    rw [State.output_emit_flushed]
    exact beside.output

/-- In every state that steps, runs and their failures lead to, the length of the tape is the
step size times one more than the number of whole steps in front of the furthest cell on which
the cursor stood. The cursor is one of its positions, every cell is a byte, and a cell is zero
unless an instruction stored to it. A step lengthens the tape exactly if it moves right from the
last cell, and then by one step; at the last position of the cursor there is no such move. -/
theorem tape_has_room_for_furthest_cell {size : Int} {cells : Nat}
    (valid : StepSize.ofInt size = .ok cells) (m : Machine) (input : List UInt8) (s : State)
    (reachable : m.Reachable (State.initial cells input) s) :
    let start := State.initial cells input
    (∃ top, IsGreatest (m.footing start s.steps) top ∧
      s.tape.length = cells * (top / cells + 1)) ∧
    s.tape.cursor ≤ 0xFFFFFFFF ∧
    (∀ i < s.tape.length, ∃ v, s.tape.cell? i = some v ∧ v.toNat ≤ 255) ∧
    (∀ i < s.tape.length, (∀ k < s.steps, ∀ u op, m.Path start k u →
        m.program.opcode? u.ip = some op → op.stores = true → u.tape.cursor ≠ i) →
      s.tape.cell? i = some 0) ∧
    ∀ t, m.step s = .ok t →
      t.tape.length =
        if m.program.opcode? s.ip = some .incrPtr ∧ s.tape.cursor + 1 = s.tape.length ∧
          s.tape.length < Tape.span
        then s.tape.length + cells else s.tape.length := by
  intro start
  have pos : 0 < cells := (StepSize.ofInt_eq_ok_iff.mp valid).2.1
  have hstart : m.Valid start := valid_initial m pos input
  have hs : m.Valid s := reachable.valid hstart
  obtain ⟨n, u, hp, beside, -⟩ := reachable.exists_path hstart
  have hsteps : s.steps = n := by
    rw [beside.steps, hp.steps hstart]
    exact Nat.zero_add n
  have htape : s.tape = u.tape := beside.tape
  obtain ⟨top, greatest, ends⟩ := hp.endsAt pos
  rw [← htape] at ends
  refine ⟨⟨top, hsteps ▸ greatest, ends.length_eq⟩, ?_, ?_, ?_, ?_⟩
  · exact Nat.le_of_lt_succ hs.tape.cursor
  · intro i hi
    refine ⟨s.tape.value i, by simp [Tape.cell?, hi], ?_⟩
    exact Nat.le_of_lt_succ (s.tape.value i).toNat_lt
  · intro i hi untouched
    have hzero : u.tape.value i = start.tape.value i := hp.value hstart (hsteps ▸ untouched)
    rw [Tape.cell?, if_pos hi, htape, hzero]
    exact congrArg some (Tape.value_blank cells i)
  · intro t hstep
    rw [(move_of_step hs.sheltered hstep).length_eq hs.tape, ends.stepSize]

/-- With as many cells as the step size may be, two moves left of the first cell bring the cursor
past the end and then onto the last cell. The tape has not grown, and the next move right grows
it by one step. -/
theorem tape_grows_from_last_cell_only :
    let m : Machine := { program := #[6, 6, 3], policy := .strict, eof := .allOnes }
    let start := State.initial 4294967295 []
    ∃ s t, m.Reachable start s ∧ s.tape.cursor = 4294967294 ∧
      (∃ top, IsGreatest (m.footing start 2) top ∧
        s.tape.length = 4294967295 * (top / 4294967295 + 1)) ∧
      m.step s = .ok t ∧ t.tape.length = 8589934590 := by
  intro m start
  obtain ⟨s, t, reachable, hsteps, hcursor, hlength, hop, hstep⟩ : ∃ s t, m.Reachable start s ∧
      s.steps = 2 ∧ s.tape.cursor = 4294967294 ∧ s.tape.length = 4294967295 ∧
      m.program.opcode? s.ip = some .incrPtr ∧ m.step s = .ok t :=
    ⟨_, _, .stepped (.stepped .fresh rfl) rfl, rfl, rfl, rfl, rfl, rfl⟩
  have valid : StepSize.ofInt 4294967295 = .ok 4294967295 := rfl
  obtain ⟨room, -, -, -, grows⟩ := tape_has_room_for_furthest_cell valid m [] s reachable
  refine ⟨s, t, reachable, hcursor, hsteps ▸ room, hstep, ?_⟩
  rw [grows t hstep, hop, hcursor, hlength, if_pos (by decide)]

end Machine

end NibTape

import NibTape.Proofs.Dialogue
import NibTape.Proofs.Growth

/-!
# The record of growths

The tape and the loop stack begin with one step of cells and one step of slots, and each time one
of them is full it gets another step. A run keeps a record of that, and so from the record alone
the sizes of both can be told: for each of them it holds all the sizes from the second step on, in
order, up to the size that it has now.

The record is described as the exchanges of a run are, by what each instruction adds to it. Only a
move right and a loop start add anything, and they do so exactly when they lengthen their
container.
-/

namespace NibTape

namespace Growth

def cells? : Growth → Option Nat
  | tape cells => some cells
  | loops _ => none

def slots? : Growth → Option Int
  | tape _ => none
  | loops slots => some slots

/-- The sizes that a container of one step takes on when it grows a number of times. -/
def sizes (step times : Nat) : List Nat := (List.range times).map fun k => step * (k + 2)

theorem sizes_succ (step times : Nat) :
    sizes step (times + 1) = sizes step times ++ [step * (times + 2)] := by
  rw [sizes, List.range_succ, List.map_append]
  rfl

end Growth

/-- What an instruction adds to the record of growths where it succeeds. -/
def Opcode.growth (s : State) : Opcode → List Growth
  | incrPtr => if s.tape.growsOnAdvance then [.tape (s.tape.length + s.tape.stepSize)] else []
  | loopStart =>
    if s.tape.current? ≠ some 0 ∧ s.loops.isFull then
      [.loops (s.loops.capacity + s.loops.stepSize)]
    else []
  | write | loopEnd | incrVal | decrVal | decrPtr | read => []

namespace State

theorem growths_advance (s : State) :
    s.advance.growths = s.growths ++ Opcode.incrPtr.growth s := by
  cases hgrow : s.tape.growsOnAdvance with
  | true => simp [advance, growths, Opcode.growth, hgrow, Tape.length_advance]
  | false => simp [advance, growths, Opcode.growth, hgrow]

theorem growths_openLoop (s : State) (i : Nat) :
    (s.openLoop i).growths =
      s.growths ++
        if s.loops.isFull then [.loops (s.loops.capacity + s.loops.stepSize)] else [] := by
  cases hfull : s.loops.isFull with
  | true => simp [openLoop, growths, hfull, LoopStack.capacity_push]
  | false => simp [openLoop, growths, hfull]

end State

namespace Machine

variable {m : Machine} {s t : State} {op : Opcode}

theorem growths_of_perform (h : m.perform op s = .ok t) :
    t.growths = s.growths ++ op.growth s := by
  cases op with
  | incrPtr =>
      cases h
      exact s.growths_advance
  | loopStart =>
      simp only [perform, enterLoop] at h
      split at h
      · cases h
      · rename_i v hcell
        split at h
        · rename_i hzero
          split at h
          · cases h
            rw [Opcode.growth, hcell, hzero, if_neg (by simp), List.append_nil]
            rfl
          · cases h
        · rename_i hne
          cases h
          rw [Opcode.growth, hcell]
          simp only [ne_eq, Option.some.injEq, hne, not_false_eq_true, true_and]
          exact s.growths_openLoop s.ip
  | read =>
      obtain ⟨tape, unread, rfl⟩ := exists_of_receive h
      exact (List.append_nil _).symm
  | incrVal =>
      obtain ⟨tape, rfl⟩ := State.exists_of_store h
      exact (List.append_nil _).symm
  | decrVal =>
      obtain ⟨tape, rfl⟩ := State.exists_of_store h
      exact (List.append_nil _).symm
  | decrPtr =>
      cases h
      exact (List.append_nil _).symm
  | write =>
      simp only [perform, send] at h
      split at h
      · cases h
      · cases h
        exact (List.append_nil _).symm
  | loopEnd =>
      simp only [perform, closeLoop] at h
      split at h
      · cases h
      · cases h
        exact (List.append_nil _).symm
      · cases h
        exact (List.append_nil _).symm

def growth (m : Machine) (s : State) : List Growth :=
  match m.program.opcode? s.ip with
  | some op => op.growth s
  | none => []

theorem growths_of_step (hstep : m.step s = .ok t) : t.growths = s.growths ++ m.growth s := by
  have hlt := unfinished_iff.mp (unfinished_of_step hstep)
  unfold growth
  cases hop : m.program.opcode? s.ip with
  | none =>
      rw [step_inert hlt hop] at hstep
      cases hstep
      exact (List.append_nil _).symm
  | some op =>
      cases hden : m.denied? op s with
      | some f =>
          rw [step_denied hop hden] at hstep
          cases hstep
      | none =>
          rw [step_allowed hop hden] at hstep
          exact growths_of_perform hstep

end Machine

/-! ### The sizes that the record tells -/

namespace State

/-- The tape has grown `tapeTimes` times by `step` cells and the loop stack `loopTimes` times by
as many slots, and the record tells the sizes of both. -/
structure Recorded (step tapeTimes loopTimes : Nat) (s : State) : Prop where
  tapeStep : s.tape.stepSize = step
  length : s.tape.length = step * (tapeTimes + 1)
  cells : s.growths.filterMap Growth.cells? = Growth.sizes step tapeTimes
  loopStep : s.loops.stepSize = step
  capacity : s.loops.capacity = (step * (loopTimes + 1) : Nat)
  slots : s.growths.filterMap Growth.slots? = (Growth.sizes step loopTimes).map Int.ofNat

theorem recorded_initial (step : Nat) (input : List UInt8) :
    (initial step input).Recorded step 0 0 :=
  ⟨rfl, (Nat.mul_one step).symm, rfl, rfl, by rw [Nat.mul_one]; rfl, rfl⟩

namespace Recorded

variable {s t : State} {step tapeTimes loopTimes : Nat}

/-- Nothing is added to the record where no container grows. -/
theorem same (h : s.Recorded step tapeTimes loopTimes) (growths : t.growths = s.growths)
    (tapeStep : t.tape.stepSize = s.tape.stepSize) (length : t.tape.length = s.tape.length)
    (loopStep : t.loops.stepSize = s.loops.stepSize)
    (capacity : t.loops.capacity = s.loops.capacity) : t.Recorded step tapeTimes loopTimes :=
  ⟨tapeStep.trans h.tapeStep, length.trans h.length, growths ▸ h.cells,
    loopStep.trans h.loopStep, capacity.trans h.capacity, growths ▸ h.slots⟩

theorem tape_grew (h : s.Recorded step tapeTimes loopTimes)
    (growths : t.growths = s.growths ++ [.tape (s.tape.length + s.tape.stepSize)])
    (tapeStep : t.tape.stepSize = s.tape.stepSize)
    (length : t.tape.length = s.tape.length + s.tape.stepSize) (loops : t.loops = s.loops) :
    t.Recorded step (tapeTimes + 1) loopTimes := by
  have hsize : s.tape.length + s.tape.stepSize = step * (tapeTimes + 2) := by
    rw [h.length, h.tapeStep]
    rfl
  refine ⟨tapeStep.trans h.tapeStep, length.trans hsize, ?_, loops ▸ h.loopStep,
    loops ▸ h.capacity, ?_⟩
  · rw [growths, List.filterMap_append, h.cells, Growth.sizes_succ, hsize]
    rfl
  · rw [growths, List.filterMap_append, h.slots]
    exact List.append_nil _

theorem loops_grew (h : s.Recorded step tapeTimes loopTimes)
    (growths : t.growths = s.growths ++ [.loops (s.loops.capacity + s.loops.stepSize)])
    (tape : t.tape = s.tape) (loopStep : t.loops.stepSize = s.loops.stepSize)
    (capacity : t.loops.capacity = s.loops.capacity + s.loops.stepSize) :
    t.Recorded step tapeTimes (loopTimes + 1) := by
  have hsize : s.loops.capacity + s.loops.stepSize = (step * (loopTimes + 2) : Nat) := by
    rw [h.capacity, h.loopStep]
    rfl
  refine ⟨tape ▸ h.tapeStep, tape ▸ h.length, ?_, loopStep.trans h.loopStep,
    capacity.trans hsize, ?_⟩
  · rw [growths, List.filterMap_append, h.cells]
    exact List.append_nil _
  · rw [growths, List.filterMap_append, h.slots, Growth.sizes_succ, List.map_append, hsize]
    rfl

end Recorded

end State

namespace Machine

variable {m : Machine} {s t : State} {n step tapeTimes loopTimes : Nat}

/-- The growth of the tape by a move right. -/
theorem Move.recorded_of_advance (move : m.Move s t) (hstep : m.step s = .ok t)
    (hop : m.program.opcode? s.ip = some .incrPtr) (loops : t.loops = s.loops)
    (h : s.Recorded step tapeTimes loopTimes) :
    ∃ tapeTimes, t.Recorded step tapeTimes loopTimes := by
  have growths := growths_of_step hstep
  rw [growth, hop] at growths
  have length := Tape.length_advance s.tape
  rw [← move.advance hop] at length
  cases hgrow : s.tape.growsOnAdvance with
  | true =>
      simp only [Opcode.growth, hgrow, if_true] at growths
      rw [hgrow, if_pos rfl] at length
      exact ⟨_, h.tape_grew growths move.stepSize length loops⟩
  | false =>
      simp only [Opcode.growth, hgrow, Bool.false_eq_true, if_false, List.append_nil] at growths
      rw [hgrow, if_neg (by decide)] at length
      exact ⟨_, h.same growths move.stepSize length (by rw [loops]) (by rw [loops])⟩

/-- The growth of the loop stack by an entered loop. -/
theorem recorded_of_enter (hstep : m.step s = .ok t)
    (hop : m.program.opcode? s.ip = some .loopStart) {v : UInt8}
    (hcell : s.tape.current? = some v) (hv : v ≠ 0) (result : t = (s.openLoop s.ip).next)
    (h : s.Recorded step tapeTimes loopTimes) :
    ∃ loopTimes, t.Recorded step tapeTimes loopTimes := by
  have growths := growths_of_step hstep
  have tape : t.tape = s.tape := by
    rw [result, ← State.scene_tape, State.scene_next, State.scene_openLoop, State.scene_tape]
  have loops : t.loops = s.loops.push s.ip := by
    rw [result, State.loops_next, State.loops_openLoop]
  have capacity := s.loops.capacity_push s.ip
  rw [← loops] at capacity
  simp only [growth, hop, Opcode.growth, hcell, ne_eq, Option.some.injEq, hv, not_false_eq_true,
    true_and] at growths
  cases hfull : s.loops.isFull with
  | true =>
      rw [hfull, if_pos rfl] at growths capacity
      exact ⟨_, h.loops_grew growths tape (by rw [loops, LoopStack.stepSize_push]) capacity⟩
  | false =>
      rw [hfull, if_neg (by decide)] at growths capacity
      rw [List.append_nil] at growths
      exact ⟨_, h.same growths (by rw [tape]) (by rw [tape])
        (by rw [loops, LoopStack.stepSize_push]) capacity⟩

theorem recorded_of_step (safe : m.Sheltered s) (hstep : m.step s = .ok t)
    (h : s.Recorded step tapeTimes loopTimes) :
    ∃ tapeTimes loopTimes, t.Recorded step tapeTimes loopTimes := by
  have move := move_of_step safe hstep
  -- a step that adds nothing to the record and keeps the loop stack keeps the tape too
  have same : m.growth s = [] → m.program.opcode? s.ip ≠ some .incrPtr →
      t.loops.stepSize = s.loops.stepSize → t.loops.capacity = s.loops.capacity →
      ∃ tapeTimes loopTimes, t.Recorded step tapeTimes loopTimes := by
    intro hnone hop loopStep capacity
    have growths := growths_of_step hstep
    rw [hnone, List.append_nil] at growths
    exact ⟨_, _, h.same growths move.stepSize (move.length hop) loopStep capacity⟩
  have advance := fun hop loops => move.recorded_of_advance hstep hop loops h
  cases move with
  | inert _ hop result =>
      subst result
      exact same (by rw [growth, hop]) (by simp [hop]) rfl rfl
  | simple op hop plain _ follows =>
      by_cases hright : op = .incrPtr
      · rw [hright] at hop
        obtain ⟨tapeTimes, recorded⟩ := advance hop follows.loops
        exact ⟨tapeTimes, loopTimes, recorded⟩
      · have hnone : op.growth s = [] := by
          cases op <;> first | rfl | exact (hright rfl).elim | cases plain
        exact same (by simp only [growth, hop, hnone]) (by simpa [hop] using hright)
          (by rw [follows.loops]) (by rw [follows.loops])
  | enter v hop hcell hv result =>
      obtain ⟨loopTimes, recorded⟩ := recorded_of_enter hstep hop hcell hv result h
      exact ⟨tapeTimes, loopTimes, recorded⟩
  | skip close hop hcell _ result =>
      subst result
      exact same (by simp [growth, hop, Opcode.growth, hcell]) (by simp [hop]) rfl rfl
  | back start rest hop hpop result =>
      obtain ⟨-, capacity, loopStep⟩ := LoopStack.pop?_eq_some hpop
      subst result
      exact same (by rw [growth, hop]; rfl) (by simp [hop]) loopStep capacity
  | stray hop _ _ result =>
      subst result
      exact same (by rw [growth, hop]; rfl) (by simp [hop]) rfl rfl

/-- In every state of a run the record of growths tells how often each container has grown. -/
theorem Path.recorded {input : List UInt8} (hp : m.Path (State.initial step input) n s)
    (pos : 0 < step) : ∃ tapeTimes loopTimes, s.Recorded step tapeTimes loopTimes := by
  induction hp with
  | start => exact ⟨0, 0, State.recorded_initial step input⟩
  | @next n u t before hstep ih =>
      obtain ⟨tapeTimes, loopTimes, recorded⟩ := ih
      have valid := before.valid (valid_initial m pos input)
      exact recorded_of_step valid.sheltered hstep recorded

end Machine

end NibTape

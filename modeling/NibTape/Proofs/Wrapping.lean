import NibTape.Proofs.Failure

/-!
# The wrapped cursor

Under the strict policy a move left of the first cell wraps the cursor to the last position,
and a later access is expected to find it outside the tape. The cursor is the number of moves
right less the number of moves left, modulo the span of the cursor. So as long as a program
stands to the left of the first cell, its cursor is as far below the span as it moved left.

Whether an access reports this depends on the length of the tape. It does exactly if the tape
ends in front of that position, and a tape of nearly the length of the span need not. A tape
grows by moves right only, so that every access is reported as long as the program has not
made more steps than the span exceeds the step size.
-/

namespace NibTape

namespace Tape

/-- Only the values of the cells may differ. -/
structure SamePlace (t u : Tape) : Prop where
  cursor : u.cursor = t.cursor
  length : u.length = t.length
  stepSize : u.stepSize = t.stepSize

/-- What opcodes do to a tape: at most one of them is a move, and it is carried out. -/
inductive Shift (ops : List Opcode) (t u : Tape) : Prop where
  | right (hright : ops.count .incrPtr = 1) (hleft : ops.count .decrPtr = 0)
      (result : u = t.advance)
  | left (hright : ops.count .incrPtr = 0) (hleft : ops.count .decrPtr = 1)
      (result : u = t.retreat)
  | stay (hright : ops.count .incrPtr = 0) (hleft : ops.count .decrPtr = 0)
      (same : t.SamePlace u)

variable {t : Tape}

theorem SamePlace.refl (t : Tape) : t.SamePlace t := ⟨rfl, rfl, rfl⟩

theorem samePlace_set (t : Tape) (v : UInt8) : t.SamePlace (t.set v) := ⟨rfl, rfl, rfl⟩

/-- A tape that grows ends at the position that its cursor reaches. -/
theorem length_advance_cases (t : Tape) :
    t.advance.length = t.length ∨
      (t.cursor + 1) % span = t.length ∧ t.advance.length = t.length + t.stepSize := by
  rw [length_advance]
  split
  · rename_i hgrow
    exact .inr ⟨by simpa [growsOnAdvance] using hgrow, rfl⟩
  · exact .inl rfl

end Tape

namespace Scene

variable {eof : EndOfInput}

theorem samePlace_receive (w : Scene) : w.tape.SamePlace (w.receive eof).tape := by
  unfold receive
  split
  · exact Tape.samePlace_set _ _
  · split
    · exact Tape.samePlace_set _ _
    · exact .refl _

theorem shift_obey (w : Scene) (op : Opcode) :
    Tape.Shift [op] w.tape (w.obey .strict eof op).tape := by
  cases op with
  | incrPtr => exact .right rfl rfl rfl
  | decrPtr => exact .left rfl rfl rfl
  | incrVal => exact .stay rfl rfl (Tape.samePlace_set _ _)
  | decrVal => exact .stay rfl rfl (Tape.samePlace_set _ _)
  | read => exact .stay rfl rfl w.samePlace_receive
  | write => exact .stay rfl rfl (.refl _)
  | loopStart => exact .stay rfl rfl (.refl _)
  | loopEnd => exact .stay rfl rfl (.refl _)

end Scene

namespace Machine

/-- An execution and the opcodes that it executes, in order; inert bytes leave no trace. -/
inductive Trail (m : Machine) (s : State) : List Opcode → State → Prop where
  | start : Trail m s [] s
  | next {ops : List Opcode} {u t : State} : Trail m s ops u → m.step u = .ok t →
      Trail m s (ops ++ (m.program.opcode? u.ip).toList) t

variable {m : Machine} {n : Nat} {s t u : State} {op : Opcode} {ops more : List Opcode}

theorem sheltered_of_strict (strict : m.policy = .strict) : m.Sheltered s := by
  intro lenient
  rw [strict] at lenient
  cases lenient

theorem shift_of_step (strict : m.policy = .strict) (hstep : m.step s = .ok t) :
    Tape.Shift (m.program.opcode? s.ip).toList s.tape t.tape := by
  have move := move_of_step (sheltered_of_strict strict) hstep
  rw [← t.scene_tape, move.scene, strict]
  cases m.program.opcode? s.ip with
  | none => exact .stay rfl rfl (.refl _)
  | some op => exact s.scene.shift_obey op

theorem Path.exists_trail (hp : m.Path s n t) : ∃ ops, m.Trail s ops t := by
  induction hp with
  | start => exact ⟨[], .start⟩
  | next _ hstep ih =>
      obtain ⟨ops, trail⟩ := ih
      exact ⟨_, trail.next hstep⟩

namespace Trail

theorem append (first : m.Trail s ops u) (rest : m.Trail u more t) :
    m.Trail s (ops ++ more) t := by
  induction rest with
  | start =>
      rw [List.append_nil]
      exact first
  | next _ hstep ih =>
      rw [← List.append_assoc]
      exact ih.next hstep

/-- Every opcode of the trail was a step. -/
theorem length_le_steps (strict : m.policy = .strict) (trail : m.Trail s ops t) :
    s.steps + ops.length ≤ t.steps := by
  induction trail with
  | start => exact Nat.le_refl _
  | @next ops u t _ hstep ih =>
      have hone : (m.program.opcode? u.ip).toList.length ≤ 1 := by
        cases m.program.opcode? u.ip <;> simp
      rw [(move_of_step (sheltered_of_strict strict) hstep).steps, List.length_append]
      omega

/-- The cursor is moved by the moves right less the moves left, modulo the span. -/
theorem cursor (strict : m.policy = .strict) (trail : m.Trail s ops t)
    (hs : s.tape.cursor < Tape.span) :
    (t.tape.cursor : Int) =
      (s.tape.cursor + ops.count .incrPtr - ops.count .decrPtr) % Tape.span := by
  induction trail with
  | start =>
      rw [List.count_nil, List.count_nil]
      simp only [Tape.span] at hs ⊢
      omega
  | next _ hstep ih =>
      rw [List.count_append, List.count_append]
      cases shift_of_step strict hstep with
      | right hright hleft result =>
          rw [hright, hleft, result, Tape.cursor_advance]
          simp only [Tape.span] at ih ⊢
          omega
      | left hright hleft result =>
          rw [hright, hleft, result, Tape.cursor_retreat]
          simp only [Tape.span] at ih ⊢
          split <;> omega
      | stay hright hleft same =>
          rw [hright, hleft, same.cursor]
          exact ih

theorem stepSize (strict : m.policy = .strict) (trail : m.Trail s ops t) :
    t.tape.stepSize = s.tape.stepSize := by
  induction trail with
  | start => rfl
  | next _ hstep ih =>
      cases shift_of_step strict hstep with
      | right _ _ result => rw [result, Tape.stepSize_advance, ih]
      | left _ _ result =>
          rw [result]
          exact ih
      | stay _ _ same => rw [same.stepSize, ih]

/-- A tape grows only as far as moves right carry its cursor, unless the cursor comes to the
end of the tape from the left of the first cell. -/
theorem length_le {cells : Nat} {input : List UInt8} (strict : m.policy = .strict)
    (trail : m.Trail (State.initial cells input) ops t)
    (few : cells + ops.count .decrPtr ≤ Tape.span) :
    t.tape.length ≤ cells + ops.count .incrPtr := by
  induction trail with
  | start => exact Nat.le_add_right _ _
  | @next ops u t before hstep ih =>
      have hsize : u.tape.stepSize = cells := before.stepSize strict
      have hcursor : (u.tape.cursor : Int) =
          (0 + ops.count .incrPtr - ops.count .decrPtr) % Tape.span :=
        before.cursor strict Tape.span_pos
      rw [List.count_append] at few ⊢
      have hu := ih (by omega)
      cases shift_of_step strict hstep with
      | right hright _ result =>
          rw [hright, result]
          obtain hsame | ⟨hend, hgrown⟩ := u.tape.length_advance_cases
          · omega
          · -- left of the first cell the next position is past the end of the tape
            rw [hgrown, hsize, ← hend]
            simp only [Tape.span] at few hcursor hend ⊢
            omega
      | left _ _ result =>
          rw [result, Tape.length_retreat]
          omega
      | stay _ _ same =>
          rw [same.length]
          omega

end Trail

/-- The strict policy reports an access exactly if it is outside the tape. -/
theorem reported_iff (strict : m.policy = .strict) (hop : m.program.opcode? s.ip = some op)
    (uses : op.usesCell = true) :
    m.step s = .error ⟨.outOfBounds s.ip s.tape.cursor s.tape.length, s⟩ ↔
      s.tape.length ≤ s.tape.cursor := by
  rw [step_eq_error_iff (sheltered_of_strict strict), fails_outOfBounds_iff]
  constructor
  · rintro ⟨-, outside, -⟩
    exact outside
  · intro outside
    exact ⟨strict, outside, op, hop, uses⟩

/-- A strict run that stands `k + 1` moves to the left of the first cell has its cursor just as
far below the span, counted around. An access there is reported exactly if the tape ends in
front of that position, and always if no more steps were made than the span exceeds the step
size. -/
theorem left_moves_reported_iff {size : Int} {cells : Nat} {input : List UInt8}
    (valid : StepSize.ofInt size = .ok cells) (strict : m.policy = .strict)
    (before : m.Path (State.initial cells input) n s) (first : s.tape.cursor = 0)
    (since : m.Trail s ops t) {k : Nat}
    (away : ops.count .decrPtr = ops.count .incrPtr + (k + 1))
    (hop : m.program.opcode? t.ip = some op) (uses : op.usesCell = true) :
    t.tape.cursor = Tape.span - 1 - k % Tape.span ∧
    (m.step t = .error ⟨.outOfBounds t.ip t.tape.cursor t.tape.length, t⟩ ↔
      t.tape.length + k % Tape.span < Tape.span) ∧
    (cells + t.steps ≤ Tape.span →
      m.step t = .error ⟨.outOfBounds t.ip t.tape.cursor t.tape.length, t⟩) := by
  have pos : 0 < cells := (StepSize.ofInt_eq_ok_iff.mp valid).2.1
  have hcursor : t.tape.cursor = Tape.span - 1 - k % Tape.span := by
    have hmoved := since.cursor strict (by rw [first]; exact Tape.span_pos)
    rw [first, away] at hmoved
    simp only [Tape.span] at hmoved ⊢
    omega
  have hreport := reported_iff strict hop uses
  refine ⟨hcursor, ?_, ?_⟩
  · rw [hreport, hcursor]
    have hk := Nat.mod_lt k Tape.span_pos
    omega
  · intro few
    obtain ⟨earlier, trail⟩ := before.exists_trail
    have hearlier : 0 + earlier.length ≤ s.steps := trail.length_le_steps strict
    have hops : s.steps + ops.length ≤ t.steps := since.length_le_steps strict
    have hright : earlier.count .incrPtr ≤ earlier.length := List.count_le_length
    have hleft : earlier.count .decrPtr ≤ earlier.length := List.count_le_length
    have hmoves : ops.count .decrPtr ≤ ops.length := List.count_le_length
    -- so few moves brought the cursor back to the first cell without going around
    have balanced : earlier.count .incrPtr = earlier.count .decrPtr := by
      have hback : (s.tape.cursor : Int) =
          (0 + earlier.count .incrPtr - earlier.count .decrPtr) % Tape.span :=
        trail.cursor strict Tape.span_pos
      rw [first] at hback
      simp only [Tape.span] at few hback
      omega
    have hlength := (trail.append since).length_le strict
    rw [List.count_append, List.count_append] at hlength
    specialize hlength (by omega)
    rw [hreport, hcursor, Nat.mod_eq_of_lt (by omega)]
    omega

/-- One move left of the only cell is reported by the next access. -/
theorem left_move_reported_on_one_cell :
    let m : Machine := { program := #[6, 2], policy := .strict, eof := .allOnes }
    ∃ t, m.step (State.initial 1 []) = .ok t ∧ t.tape.cursor = 4294967295 ∧
      m.step t = .error ⟨.outOfBounds 1 4294967295 1, t⟩ := by
  intro m
  refine ⟨_, rfl, rfl, ?_⟩
  have valid : StepSize.ofInt 1 = .ok 1 := rfl
  have since : m.Trail (State.initial 1 []) [.decrPtr] _ := Trail.start.next rfl
  have away : List.count Opcode.decrPtr [.decrPtr] =
      List.count Opcode.incrPtr [.decrPtr] + (0 + 1) := rfl
  have hop : m.program.opcode? 1 = some .incrVal := rfl
  exact (left_moves_reported_iff valid rfl .start rfl since away hop rfl).2.2 (by decide)

/-- With as many cells as the step size may be, the second move left of the first cell brings
the cursor onto the last one, and `+` changes that cell instead of being reported. -/
theorem second_left_move_missed :
    let m : Machine := { program := #[6, 6, 2, 0, 1], policy := .strict, eof := .allOnes }
    let start := State.initial 4294967295 []
    StepSize.ofInt 4294967295 = .ok 4294967295 ∧ start.tape.cursor = 0 ∧
      ∃ s t u, m.step start = .ok s ∧ m.step s = .ok t ∧
        m.Trail start [.decrPtr] s ∧ m.Trail start [.decrPtr, .decrPtr] t ∧
        m.program.opcode? t.ip = some .incrVal ∧ m.step t = .ok u ∧
        u.tape.cell? 4294967294 = some 1 := by
  intro m start
  have once : m.Trail start [.decrPtr] _ := Trail.start.next rfl
  have twice : m.Trail start [.decrPtr, .decrPtr] _ := once.next rfl
  exact ⟨rfl, rfl, _, _, _, rfl, rfl, once, twice, rfl, rfl, rfl⟩

end Machine

end NibTape

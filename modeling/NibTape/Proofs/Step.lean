import NibTape.Proofs.Scene

/-!
# What one step can do

A step either moves on by one instruction or, at a bracket, goes to another position. The
equations below give its result for each kind of instruction, and for every instruction
but the brackets its effect on the scene.

The two inversions say everything that a step can do and every way in which it can fail.
An invariant of the machine has one case for each and need not open the step function.
-/

namespace NibTape.Machine

variable {m : Machine} {op : Opcode} {s t : State} {f : Fault} {h : Halt}

theorem finished_iff : m.finished s = true ↔ m.program.size ≤ s.ip := by
  simp [finished]

theorem unfinished_iff : m.finished s = false ↔ s.ip < m.program.size := by
  simp [finished]

/-- Past the last instruction there is nothing to execute. -/
theorem step_of_finished (hend : m.finished s = true) : m.step s = .error ⟨.pastEnd, s⟩ := by
  have hnone : m.program[s.ip]? = none := by
    rw [finished_iff] at hend
    simpa using hend
  simp only [step, hnone]

theorem unfinished_of_step (hstep : m.step s = .ok t) : m.finished s = false := by
  rw [Bool.eq_false_iff]
  intro hend
  rw [step_of_finished hend] at hstep
  cases hstep

theorem denied?_eq_none_iff :
    m.denied? op s = none ↔
      (op.usesCell = true → m.policy = .strict → s.tape.cursor < s.tape.length) := by
  cases hp : m.policy <;> cases hu : op.usesCell <;>
    simp [denied?, hp, hu, Policy.accessFault?_strict]

/-- An access is denied only by the strict policy and only outside the tape. -/
theorem denied?_eq_some_iff :
    m.denied? op s = some f ↔
      op.usesCell = true ∧ m.policy = .strict ∧ s.tape.length ≤ s.tape.cursor ∧
        f = .outOfBounds s.ip s.tape.cursor s.tape.length := by
  cases hp : m.policy <;> cases hu : op.usesCell <;>
    simp [denied?, hp, hu, Policy.accessFault?_strict, eq_comm]

theorem denied?_of_lt (h : s.tape.cursor < s.tape.length) : m.denied? op s = none :=
  denied?_eq_none_iff.mpr fun _ _ => h

/-! ### Equations for each kind of instruction -/

theorem step_inert (hlt : s.ip < m.program.size) (hop : m.program.opcode? s.ip = none) :
    m.step s = .ok s.next := by
  have hb : m.program[s.ip]? = some m.program[s.ip] := by simp [hlt]
  have hnone : Opcode.ofByte? m.program[s.ip] = none := by
    simpa [Program.opcode?, hb] using hop
  simp only [step, hb, hnone]

/-- An access that the policy objects to leaves the state as it is. -/
theorem step_denied (hop : m.program.opcode? s.ip = some op) (hden : m.denied? op s = some f) :
    m.step s = .error ⟨f, s⟩ := by
  obtain ⟨b, hb, hop⟩ := Option.bind_eq_some_iff.mp hop
  simp only [step, hb, hop, hden]

theorem step_allowed (hop : m.program.opcode? s.ip = some op) (hden : m.denied? op s = none) :
    m.step s = m.perform op s := by
  obtain ⟨b, hb, hop⟩ := Option.bind_eq_some_iff.mp hop
  simp only [step, hb, hop, hden]

theorem step_loopEnd (hop : m.program.opcode? s.ip = some .loopEnd) :
    m.step s = m.closeLoop s := step_allowed hop rfl

/-- A loop end with an open loop goes back to its start. -/
theorem step_back {start : Nat} {rest : LoopStack Nat}
    (hop : m.program.opcode? s.ip = some .loopEnd)
    (hpop : s.loops.pop? = some (start, rest)) :
    m.step s = .ok ({ s with loops := rest }.jump start) := by
  rw [step_loopEnd hop]
  simp only [closeLoop, Policy.leaveLoop, hpop]

/-- The permissive policy passes over a loop end with no open loop. -/
theorem step_stray (hop : m.program.opcode? s.ip = some .loopEnd)
    (hpop : s.loops.pop? = none) (hp : m.policy = .permissive) :
    m.step s = .ok s.next := by
  rw [step_loopEnd hop]
  simp only [closeLoop, Policy.leaveLoop, hp, hpop]

theorem step_unexpected (hop : m.program.opcode? s.ip = some .loopEnd)
    (hpop : s.loops.pop? = none) (hp : m.policy = .strict) :
    m.step s = .error ⟨.unexpectedLoopEnd s.ip, s⟩ := by
  rw [step_loopEnd hop]
  simp only [closeLoop, Policy.leaveLoop, hp, hpop]

theorem step_enter {v : UInt8} (hop : m.program.opcode? s.ip = some .loopStart)
    (hcell : s.tape.current? = some v) (hv : v ≠ 0) :
    m.step s = .ok (s.openLoop s.ip).next := by
  have hlt := (Tape.current?_eq_some_iff.mp hcell).1
  rw [step_allowed hop (denied?_of_lt hlt)]
  simp only [perform, enterLoop, hcell, hv, if_false]

/-- A loop whose cell is zero is skipped. -/
theorem step_skip {close : Nat} (hop : m.program.opcode? s.ip = some .loopStart)
    (hcell : s.tape.current? = some 0) (hclose : m.program.loopEnd? s.ip = some close) :
    m.step s = .ok (s.jump (close + 1)) := by
  have hlt := (Tape.current?_eq_some_iff.mp hcell).1
  rw [step_allowed hop (denied?_of_lt hlt)]
  simp only [perform, enterLoop, hcell, if_true, hclose]

theorem step_unterminated (hop : m.program.opcode? s.ip = some .loopStart)
    (hcell : s.tape.current? = some 0) (hclose : m.program.loopEnd? s.ip = none) :
    m.step s = .error ⟨.unterminatedLoop s.ip, s⟩ := by
  have hlt := (Tape.current?_eq_some_iff.mp hcell).1
  rw [step_allowed hop (denied?_of_lt hlt)]
  simp only [perform, enterLoop, hcell, if_true, hclose]

/-! ### Instructions other than brackets -/

/-- A read takes a byte or what stands for the end of the input, and passes on what was
written before; the second is not part of the scene. -/
theorem receive_of_lt (hlt : s.tape.cursor < s.tape.length) :
    ∃ t, m.receive s = .ok t ∧ s.Follows t (s.scene.receive m.eof) := by
  unfold receive Scene.receive
  simp only [State.unread_emit, State.scene_unread]
  cases hu : s.unread with
  | cons b rest =>
      obtain ⟨t, hstore, follows⟩ := State.store_of_lt
        (s := { s.emit .flushed with unread := rest }.emit (.received (some b))) hlt b
      refine ⟨t, hstore, follows.ip, follows.steps, follows.loops, ?_⟩
      rw [follows.scene, State.scene_emit_received]
      change ({ (s.emit .flushed).scene with unread := rest } : Scene).put b = _
      rw [State.scene_emit_flushed]
  | nil =>
      cases hf : m.eof.fill? with
      | some b =>
          obtain ⟨t, hstore, follows⟩ := State.store_of_lt
            (s := (s.emit .flushed).emit (.received none)) hlt b
          refine ⟨t, hstore, follows.ip, follows.steps, follows.loops, ?_⟩
          rw [follows.scene, State.scene_emit_received, State.scene_emit_flushed]
      | none => exact ⟨_, rfl, rfl, rfl, rfl, by simp⟩

/-- An instruction that is no bracket succeeds on a cell that exists. -/
theorem perform_of_lt (plain : op.isBracket = false)
    (hlt : op.usesCell = true → s.tape.cursor < s.tape.length) :
    ∃ t, m.perform op s = .ok t ∧ s.Follows t (s.scene.obey m.policy m.eof op) := by
  cases op with
  | incrPtr =>
      refine ⟨_, rfl, ?_⟩
      unfold State.advance
      dsimp only
      split <;> exact ⟨rfl, rfl, rfl, rfl⟩
  | decrPtr => exact ⟨_, rfl, rfl, rfl, rfl, rfl⟩
  | incrVal => exact State.store_of_lt (hlt rfl) _
  | decrVal => exact State.store_of_lt (hlt rfl) _
  | write =>
      have hcell := Tape.current?_of_lt (hlt rfl)
      refine ⟨(s.emit (.wrote (s.tape.value s.tape.cursor))).next, ?_, rfl, rfl, rfl, ?_⟩
      · simp only [perform, send, hcell]
      · rw [State.scene_next, State.scene_emit_wrote]
        rfl
  | read => exact receive_of_lt (hlt rfl)
  | loopStart => cases plain
  | loopEnd => cases plain

theorem step_simple (hop : m.program.opcode? s.ip = some op) (plain : op.isBracket = false)
    (housed : op.usesCell = true → s.tape.cursor < s.tape.length) :
    ∃ t, m.step s = .ok t ∧ s.Follows t (s.scene.obey m.policy m.eof op) := by
  obtain ⟨t, hperform, follows⟩ := perform_of_lt (m := m) plain housed
  have hallowed : m.denied? op s = none := denied?_eq_none_iff.mpr fun uses _ => housed uses
  exact ⟨t, (step_allowed hop hallowed).trans hperform, follows⟩

/-! ### Inversions -/

/-- Where accesses are not checked, the cursor stands on a cell. -/
def Sheltered (m : Machine) (s : State) : Prop :=
  m.policy = .permissive → s.tape.cursor < s.tape.length

/-- All that a step without a fault can do. -/
inductive Move (m : Machine) (s t : State) : Prop where
  | inert (hlt : s.ip < m.program.size) (hop : m.program.opcode? s.ip = none)
      (result : t = s.next)
  | simple (op : Opcode) (hop : m.program.opcode? s.ip = some op)
      (plain : op.isBracket = false)
      (housed : op.usesCell = true → s.tape.cursor < s.tape.length)
      (follows : s.Follows t (s.scene.obey m.policy m.eof op))
  | enter (v : UInt8) (hop : m.program.opcode? s.ip = some .loopStart)
      (hcell : s.tape.current? = some v) (hv : v ≠ 0)
      (result : t = (s.openLoop s.ip).next)
  | skip (close : Nat) (hop : m.program.opcode? s.ip = some .loopStart)
      (hcell : s.tape.current? = some 0) (hclose : m.program.loopEnd? s.ip = some close)
      (result : t = s.jump (close + 1))
  | back (start : Nat) (rest : LoopStack Nat) (hop : m.program.opcode? s.ip = some .loopEnd)
      (hpop : s.loops.pop? = some (start, rest))
      (result : t = { s with loops := rest }.jump start)
  | stray (hop : m.program.opcode? s.ip = some .loopEnd) (hpop : s.loops.pop? = none)
      (lenient : m.policy = .permissive) (result : t = s.next)

/-- What a step does to the scene is what its opcode does; an inert byte does nothing. -/
theorem Move.scene (move : m.Move s t) :
    t.scene =
      match m.program.opcode? s.ip with
      | some op => s.scene.obey m.policy m.eof op
      | none => s.scene := by
  cases move with
  | inert _ hop result => rw [result, hop, State.scene_next]
  | simple op hop _ _ follows => rw [hop, follows.scene]
  | enter _ hop _ _ result =>
      rw [result, hop, State.scene_next, State.scene_openLoop]
      rfl
  | skip _ hop _ _ result =>
      rw [result, hop, State.scene_jump]
      rfl
  | back _ _ hop _ result =>
      rw [result, hop, State.scene_jump]
      rfl
  | stray hop _ _ result =>
      rw [result, hop, State.scene_next]
      rfl

theorem Move.steps (move : m.Move s t) : t.steps = s.steps + 1 := by
  cases move with
  | inert _ _ result => rw [result]; rfl
  | simple _ _ _ _ follows => exact follows.steps
  | enter _ _ _ _ result =>
      obtain ⟨_, hopen⟩ := s.openLoop_eq s.ip
      rw [result, hopen]
      rfl
  | skip _ _ _ _ result => rw [result]; rfl
  | back _ _ _ _ result => rw [result]; rfl
  | stray _ _ _ result => rw [result]; rfl

/-- All the ways in which a step can fail. -/
inductive Fails (m : Machine) (s : State) : Fault → Prop where
  | pastEnd (hend : m.program.size ≤ s.ip) : Fails m s .pastEnd
  | outOfBounds (op : Opcode) (hop : m.program.opcode? s.ip = some op)
      (uses : op.usesCell = true) (strict : m.policy = .strict)
      (outside : s.tape.length ≤ s.tape.cursor) :
      Fails m s (.outOfBounds s.ip s.tape.cursor s.tape.length)
  | unterminated (hop : m.program.opcode? s.ip = some .loopStart)
      (hcell : s.tape.current? = some 0) (hclose : m.program.loopEnd? s.ip = none) :
      Fails m s (.unterminatedLoop s.ip)
  | unexpected (hop : m.program.opcode? s.ip = some .loopEnd)
      (hpop : s.loops.pop? = none) (strict : m.policy = .strict) :
      Fails m s (.unexpectedLoopEnd s.ip)

/-- A loop start that may use its cell enters the loop, skips it, or has no end to skip to. -/
private theorem loopStart_cases (hop : m.program.opcode? s.ip = some .loopStart)
    (hlt : s.tape.cursor < s.tape.length) :
    (∃ t, m.step s = .ok t ∧ m.Move s t) ∨ ∃ f, m.step s = .error ⟨f, s⟩ ∧ m.Fails s f := by
  have hcell := Tape.current?_of_lt hlt
  by_cases hv : s.tape.value s.tape.cursor = 0
  · rw [hv] at hcell
    cases hclose : m.program.loopEnd? s.ip with
    | some close => exact .inl ⟨_, step_skip hop hcell hclose, .skip close hop hcell hclose rfl⟩
    | none =>
        exact .inr ⟨_, step_unterminated hop hcell hclose, .unterminated hop hcell hclose⟩
  · exact .inl ⟨_, step_enter hop hcell hv, .enter _ hop hcell hv rfl⟩

/-- A loop end goes back, is passed over, or is reported. -/
private theorem loopEnd_cases (hop : m.program.opcode? s.ip = some .loopEnd) :
    (∃ t, m.step s = .ok t ∧ m.Move s t) ∨ ∃ f, m.step s = .error ⟨f, s⟩ ∧ m.Fails s f := by
  cases hpop : s.loops.pop? with
  | some popped =>
      obtain ⟨start, rest⟩ := popped
      exact .inl ⟨_, step_back hop hpop, .back start rest hop hpop rfl⟩
  | none =>
      cases hp : m.policy with
      | permissive => exact .inl ⟨_, step_stray hop hpop hp, .stray hop hpop hp rfl⟩
      | strict => exact .inr ⟨_, step_unexpected hop hpop hp, .unexpected hop hpop hp⟩

/-- A step makes one of the moves, or it fails in one of the ways and changes nothing. -/
theorem step_cases (safe : m.Sheltered s) :
    (∃ t, m.step s = .ok t ∧ m.Move s t) ∨ ∃ f, m.step s = .error ⟨f, s⟩ ∧ m.Fails s f := by
  rcases Nat.lt_or_ge s.ip m.program.size with hlt | hge
  · cases hop : m.program.opcode? s.ip with
    | none => exact .inl ⟨_, step_inert hlt hop, .inert hlt hop rfl⟩
    | some op =>
        cases hden : m.denied? op s with
        | some f =>
            obtain ⟨uses, strict, outside, rfl⟩ := denied?_eq_some_iff.mp hden
            exact .inr ⟨_, step_denied hop hden, .outOfBounds op hop uses strict outside⟩
        | none =>
            have housed : op.usesCell = true → s.tape.cursor < s.tape.length := by
              intro uses
              cases hp : m.policy with
              | permissive => exact safe hp
              | strict => exact denied?_eq_none_iff.mp hden uses hp
            cases plain : op.isBracket with
            | false =>
                obtain ⟨t, hstep, follows⟩ := step_simple hop plain housed
                exact .inl ⟨t, hstep, .simple op hop plain housed follows⟩
            | true =>
                cases op with
                | loopStart => exact loopStart_cases hop (housed rfl)
                | loopEnd => exact loopEnd_cases hop
                | _ => cases plain
  · exact .inr ⟨_, step_of_finished (finished_iff.mpr hge), .pastEnd hge⟩

theorem move_of_step (safe : m.Sheltered s) (hstep : m.step s = .ok t) : m.Move s t := by
  obtain ⟨u, hu, move⟩ | ⟨f, hf, -⟩ := step_cases safe
  · rw [hstep] at hu
    cases hu
    exact move
  · rw [hstep] at hf
    cases hf

/-- A step that fails changes nothing. -/
theorem fails_of_step (safe : m.Sheltered s) (hstep : m.step s = .error h) :
    h.state = s ∧ m.Fails s h.fault := by
  obtain ⟨u, hu, -⟩ | ⟨f, hf, fails⟩ := step_cases safe
  · rw [hstep] at hu
    cases hu
  · rw [hstep] at hf
    cases hf
    exact ⟨rfl, fails⟩

end NibTape.Machine

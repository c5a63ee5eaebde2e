import NibTape.Proofs.Dialogue
import NibTape.Proofs.Sequence

/-!
# How long a run can be

Every step goes forward in the text, except for a loop end that goes back to an open loop. How
far the skips and the jumps go does not matter: between two jumps back the position only grows,
and it never passes the end of the program. So each jump back pays for as many steps as the
program has instructions, and the steps since the last one are paid for by the position itself.

Without a loop start no loop is ever open. Then no step goes back or skips, and a run comes to
its end in one pass.
-/

namespace NibTape

theorem Program.openLoops_of_no_start {p : Program} (free : ∀ i, p.opcode? i ≠ some .loopStart)
    (i : Nat) : p.openLoops i = [] := by
  rw [List.eq_nil_iff_forall_not_mem]
  intro a ha
  exact free a (opcode?_of_mem_openLoops ha)

namespace Machine

variable {m : Machine} {start s t u : State} {n cells : Nat} {input : List UInt8}

/-- Whether the step from a state goes back: its instruction is a loop end, and a loop is open. -/
def jumpsBack (m : Machine) (u : State) : Bool :=
  m.program.opcode? u.ip == some .loopEnd && u.loops.pop?.isSome

def backJumps (m : Machine) (n : Nat) (s : State) : Nat := (m.executed n s).countP m.jumpsBack

/-- A step goes back or forth, and only a loop end with a loop open goes back. -/
theorem Move.back_or_forth (move : m.Move s t) (nested : m.Nested s) :
    (m.jumpsBack s = true ∧ t.ip < s.ip) ∨ (m.jumpsBack s = false ∧ s.ip < t.ip) := by
  cases move with
  | inert _ hop result =>
      rw [result]
      exact .inr ⟨by simp [jumpsBack, hop], Nat.lt_succ_self _⟩
  | simple op hop plain _ follows =>
      obtain ⟨-, hend⟩ := Program.not_bracket (p := m.program) (i := s.ip) (by simp [hop, plain])
      rw [follows.ip]
      exact .inr ⟨by simp [jumpsBack, hend], Nat.lt_succ_self _⟩
  | enter _ hop _ _ result =>
      rw [result, State.ip_next, State.ip_openLoop]
      exact .inr ⟨by simp [jumpsBack, hop], Nat.lt_succ_self _⟩
  | skip close hop _ hclose result =>
      have hlt := (Program.scan?_eq_some hclose).1
      rw [result]
      exact .inr ⟨by simp [jumpsBack, hop], Nat.lt_succ_of_lt hlt⟩
  | back first rest hop hpop result =>
      have hlt := Program.lt_of_mem_openLoops (nested.mem_openLoops hpop)
      rw [result]
      exact .inl ⟨by simp [jumpsBack, hop, hpop], hlt⟩
  | stray _ hpop _ result =>
      rw [result]
      exact .inr ⟨by simp [jumpsBack, hpop], Nat.lt_succ_self _⟩

theorem Path.backJumps_succ (hp : m.Path start n u) (hstep : m.step u = .ok t) :
    m.backJumps (n + 1) start = m.backJumps n start + if m.jumpsBack u then 1 else 0 := by
  rw [backJumps, hp.executed_succ hstep, List.countP_append, List.countP_singleton]
  rfl

/-- Each jump back pays for as many steps as the program is long, and the position pays for the
steps since the last one. -/
theorem Path.le_backJumps (hp : m.Path (State.initial cells input) n s) (pos : 0 < cells) :
    n ≤ m.backJumps n (State.initial cells input) * m.program.size + s.ip := by
  induction hp with
  | start => exact Nat.zero_le _
  | @next n u t before hstep ih =>
      obtain ⟨nested, move⟩ := before.nested_move pos hstep
      have hlt := unfinished_iff.mp (unfinished_of_step hstep)
      rw [before.backJumps_succ hstep]
      obtain ⟨hback, -⟩ | ⟨hforth, hip⟩ := move.back_or_forth nested
      · -- the position that is lost was still in the program
        rw [hback, if_pos rfl, Nat.succ_mul]
        omega
      · rw [hforth]
        exact Nat.le_trans (Nat.succ_le_succ ih) (Nat.add_le_add_left hip _)

/-! ### Programs without a loop start -/

/-- Without a loop start nothing is skipped and nothing is gone back to. -/
theorem Move.ip_of_no_start (move : m.Move s t) (nested : m.Nested s)
    (free : ∀ i, m.program.opcode? i ≠ some .loopStart) : t.ip = s.ip + 1 := by
  cases move with
  | inert _ _ result => rw [result]; rfl
  | simple _ _ _ _ follows => exact follows.ip
  | enter _ hop _ _ _ => exact (free _ hop).elim
  | skip _ hop _ _ _ => exact (free _ hop).elim
  | back first rest _ hpop _ =>
      have hmem := nested.mem_openLoops hpop
      rw [Program.openLoops_of_no_start free] at hmem
      cases hmem
  | stray _ _ _ result => rw [result]; rfl

theorem Path.ip_of_no_start (hp : m.Path (State.initial cells input) n s) (pos : 0 < cells)
    (free : ∀ i, m.program.opcode? i ≠ some .loopStart) : s.ip = n := by
  induction hp with
  | start => rfl
  | next before hstep ih =>
      obtain ⟨nested, move⟩ := before.nested_move pos hstep
      rw [move.ip_of_no_start nested free, ih]

/-- Without a loop start a run ends within as many steps as the program has instructions. -/
theorem proceed_of_no_start (input : List UInt8) (pos : 0 < cells)
    (free : ∀ i, m.program.opcode? i ≠ some .loopStart) :
    (∃ t, m.proceed m.program.size (State.initial cells input) = .finished t ∧
      t.steps = m.program.size) ∨
    m.policy = .strict ∧ ∃ f t, m.proceed m.program.size (State.initial cells input) =
      .faulted ⟨f, t⟩ ∧ t.steps < m.program.size := by
  have hstart := valid_initial m pos input
  have reaches := m.reaches_proceed m.program.size (State.initial cells input)
  cases hproceed : m.proceed m.program.size (State.initial cells input) with
  | running t =>
      rw [hproceed] at reaches
      obtain ⟨hp, hend⟩ := reaches
      have hlt := unfinished_iff.mp hend
      rw [hp.ip_of_no_start pos free] at hlt
      exact (Nat.lt_irrefl _ hlt).elim
  | finished t =>
      rw [hproceed] at reaches
      obtain ⟨k, hk, hp, hend⟩ := reaches
      have hge := finished_iff.mp hend
      rw [hp.ip_of_no_start pos free] at hge
      refine .inl ⟨t, rfl, ?_⟩
      rw [hp.steps hstart, Nat.le_antisymm hk hge]
      exact Nat.zero_add _
  | faulted h =>
      rw [hproceed] at reaches
      obtain ⟨k, hk, t, hp, hend, hstep⟩ := reaches
      obtain ⟨hstate, fails⟩ := fails_of_step (hp.valid hstart).sheltered hstep
      have strict : m.policy = .strict :=
        (fails.unterminated_or_strict hend).resolve_left fun h => free _ h.1
      refine .inr ⟨strict, h.fault, h.state, rfl, ?_⟩
      rw [hstate, hp.steps hstart]
      exact (Nat.zero_add k).trans_lt hk

/-- For every program, policy, rule for the end of the input and input: after any number of steps
the position is in the program or at its end, and the steps are at most as many as the program
has instructions, taken once for each jump back and once more. A step that jumps back decreases
the position, and any other increases it. A program without a loop start completes in exactly as
many steps as it has instructions; only under the strict policy may it fail before. -/
theorem jumps_back_bound_steps {size : Int} {cells : Nat}
    (valid : StepSize.ofInt size = .ok cells) (m : Machine) (input : List UInt8) :
    let start := State.initial cells input
    (∀ n s, m.Path start n s →
      s.ip ≤ m.program.size ∧
      n ≤ (m.backJumps n start + 1) * m.program.size ∧
      ∀ t, m.step s = .ok t →
        (m.jumpsBack s = true → t.ip < s.ip) ∧ (m.jumpsBack s = false → s.ip < t.ip)) ∧
    ((∀ i, m.program.opcode? i ≠ some .loopStart) →
      (∃ t, m.run? m.program.size none start = some (.ok t) ∧ t.steps = m.program.size) ∨
      m.policy = .strict ∧ ∃ f t, m.run? m.program.size none start = some (.error ⟨f, t⟩) ∧
        t.steps < m.program.size) := by
  intro start
  have pos : 0 < cells := (StepSize.ofInt_eq_ok_iff.mp valid).2.1
  constructor
  · intro n s hp
    have hsize := hp.ip_le_size pos
    have hle := hp.le_backJumps pos
    refine ⟨hsize, ?_, ?_⟩
    · rw [Nat.succ_mul]
      exact Nat.le_trans hle (Nat.add_le_add_left hsize _)
    · intro t hstep
      obtain ⟨nested, move⟩ := hp.nested_move pos hstep
      obtain ⟨hback, hlt⟩ | ⟨hforth, hlt⟩ := move.back_or_forth nested
      · exact ⟨fun _ => hlt, fun h => by simp [hback] at h⟩
      · exact ⟨fun h => by simp [hforth] at h, fun _ => hlt⟩
  · intro free
    rw [run?_eq_conclude]
    obtain ⟨t, hproceed, hsteps⟩ | ⟨strict, f, t, hproceed, hsteps⟩ :=
      proceed_of_no_start input pos free
    · exact .inl ⟨t.emit .flushed, by rw [allowance, hproceed]; rfl, hsteps⟩
    · exact .inr ⟨strict, f, t.emit .flushed, by rw [allowance, hproceed]; rfl, hsteps⟩

/-- The program `++[-].` jumps back twice and completes in ten steps, fewer than three times six.
Without the loop start it has a stray loop end, and completes in five. -/
theorem jumps_back_bound_steps_of_loop :
    let m : Machine := { program := #[2, 2, 4, 5, 1, 0], policy := .permissive, eof := .zero }
    let m' : Machine := { m with program := #[2, 2, 5, 1, 0] }
    let start := State.initial 1 []
    (∃ s, m.proceed 10 start = .finished s ∧ m.Path start 10 s ∧ m.backJumps 10 start = 2 ∧
      10 ≤ (m.backJumps 10 start + 1) * m.program.size) ∧
    ∃ t, m'.run? 5 none start = some (.ok t) ∧ t.steps = 5 := by
  intro m m' start
  have valid : StepSize.ofInt 1 = .ok 1 := rfl
  obtain ⟨s, hproceed, hsteps⟩ : ∃ s, m.proceed 10 (State.initial 1 []) = .finished s ∧
      s.steps = 10 := ⟨_, rfl, rfl⟩
  obtain ⟨k, -, hp, -⟩ := proceed_eq_finished_iff.mp hproceed
  obtain rfl : k = 10 := by
    rw [hp.steps (valid_initial m Nat.one_pos [])] at hsteps
    exact (Nat.zero_add k).symm.trans hsteps
  obtain ⟨bound, -⟩ := jumps_back_bound_steps valid m []
  obtain ⟨-, ends⟩ := jumps_back_bound_steps valid m' []
  have listed : ∀ i < 5, m'.program.opcode? i ≠ some .loopStart := by decide
  have free : ∀ i, m'.program.opcode? i ≠ some .loopStart :=
    fun i hop => listed i (Program.lt_size_of_opcode? hop) hop
  have twice : m.backJumps 10 (State.initial 1 []) = 2 := by decide +kernel
  refine ⟨⟨s, hproceed, hp, twice, (bound 10 s hp).2.1⟩, ?_⟩
  obtain completes | ⟨strict, -⟩ := ends free
  · exact completes
  · cases strict

end Machine

end NibTape

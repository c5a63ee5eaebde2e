import NibTape.Proofs.Safety

/-!
# Instructions that fail

An instruction that fails leaves the whole machine as it found it, and the conditions under
which it fails are known exactly. Only a read makes this a question: it takes its input byte
before it stores it. It is atomic because the cursor stands on a cell in every state in which
the access is allowed.

How a run ends is said once, by its verdict: it completes, it comes to an instruction that
fails, or its budget is spent. Everything about the endings of runs is read off the executions
behind these three, without fuel.

A machine can be driven by steps and by runs, and driven on after some of them have failed.
What every step keeps holds in all the states that it comes to in this way. They are valid, so
what is said of failures holds in each of them, and a run that failed fails again.
-/

namespace NibTape.Machine

/-- The states to which steps and runs take a machine, whether they succeed or fail. -/
inductive Reachable (m : Machine) (start : State) : State → Prop where
  | fresh : Reachable m start start
  | stepped {s t} : Reachable m start s → m.step s = .ok t → Reachable m start t
  | stepFailed {s h} : Reachable m start s → m.step s = .error h → Reachable m start h.state
  | ran {s t fuel limit} : Reachable m start s → m.run? fuel limit s = some (.ok t) →
      Reachable m start t
  | runFailed {s h fuel limit} : Reachable m start s →
      m.run? fuel limit s = some (.error h) → Reachable m start h.state

variable {m : Machine} {start s t : State} {f : Fault} {h : Halt}
variable {fuel n : Nat} {limit : Option Int} {r : Except Halt State}

/-! ### When a step fails -/

/-- The ways to fail are no more than that: in each of them the step does fail. -/
theorem step_of_fails (fails : m.Fails s f) : m.step s = .error ⟨f, s⟩ := by
  cases fails with
  | pastEnd hend => exact step_of_finished (finished_iff.mpr hend)
  | outOfBounds op hop uses strict outside =>
      exact step_denied hop (denied?_eq_some_iff.mpr ⟨uses, strict, outside, rfl⟩)
  | unterminated hop hcell hclose => exact step_unterminated hop hcell hclose
  | unexpected hop hpop strict => exact step_unexpected hop hpop strict

theorem step_eq_error_iff (safe : m.Sheltered s) :
    m.step s = .error ⟨f, s⟩ ↔ m.Fails s f := by
  constructor
  · intro hstep
    exact (fails_of_step safe hstep).2
  · exact step_of_fails

theorem fails_pastEnd_iff : m.Fails s .pastEnd ↔ m.program.size ≤ s.ip := by
  constructor
  · rintro ⟨hend⟩
    exact hend
  · exact .pastEnd

theorem fails_outOfBounds_iff :
    m.Fails s (.outOfBounds s.ip s.tape.cursor s.tape.length) ↔
      m.policy = .strict ∧ s.tape.length ≤ s.tape.cursor ∧
        ∃ op, m.program.opcode? s.ip = some op ∧ op.usesCell = true := by
  constructor
  · intro fails
    cases fails with
    | outOfBounds op hop uses strict outside => exact ⟨strict, outside, op, hop, uses⟩
  · rintro ⟨strict, outside, op, hop, uses⟩
    exact .outOfBounds op hop uses strict outside

theorem fails_unterminated_iff :
    m.Fails s (.unterminatedLoop s.ip) ↔
      m.program.opcode? s.ip = some .loopStart ∧ m.denied? .loopStart s = none ∧
        s.tape.current? = some 0 ∧ m.program.loopEnd? s.ip = none := by
  constructor
  · intro fails
    cases fails with
    | unterminated hop hcell hclose =>
        have hlt := (Tape.current?_eq_some_iff.mp hcell).1
        exact ⟨hop, denied?_of_lt hlt, hcell, hclose⟩
  · rintro ⟨hop, -, hcell, hclose⟩
    exact .unterminated hop hcell hclose

theorem fails_unexpected_iff :
    m.Fails s (.unexpectedLoopEnd s.ip) ↔
      m.policy = .strict ∧ m.program.opcode? s.ip = some .loopEnd ∧ s.loops.toList = [] := by
  rw [← LoopStack.pop?_eq_none_iff]
  constructor
  · intro fails
    cases fails with
    | unexpected hop hpop strict => exact ⟨strict, hop, hpop⟩
  · rintro ⟨strict, hop, hpop⟩
    exact .unexpected hop hpop strict

/-- A fault names the instruction pointer, the cursor and the length of the failing state. -/
theorem Fails.names (fails : m.Fails s f) :
    f = .pastEnd ∨ f = .outOfBounds s.ip s.tape.cursor s.tape.length ∨
      f = .unterminatedLoop s.ip ∨ f = .unexpectedLoopEnd s.ip := by
  cases fails with
  | pastEnd => exact .inl rfl
  | outOfBounds => exact .inr (.inl rfl)
  | unterminated => exact .inr (.inr (.inl rfl))
  | unexpected => exact .inr (.inr (.inr rfl))

/-- Before the end of the program the permissive policy knows no failure but a loop start that
is to be skipped and has no end. -/
theorem Fails.unterminated_or_strict (fails : m.Fails s f) (hs : m.finished s = false) :
    (m.program.opcode? s.ip = some .loopStart ∧ f = .unterminatedLoop s.ip) ∨
      m.policy = .strict := by
  cases fails with
  | pastEnd hend => exact (Nat.not_lt_of_le hend (unfinished_iff.mp hs)).elim
  | outOfBounds _ _ _ strict _ => exact .inr strict
  | unterminated hop _ _ => exact .inl ⟨hop, rfl⟩
  | unexpected _ _ strict => exact .inr strict

/-- An exchange with the outside world does not change how the next instruction fails. -/
theorem Fails.emit (fails : m.Fails s f) (e : Event) : m.Fails (s.emit e) f := by
  cases fails with
  | pastEnd hend => exact .pastEnd hend
  | outOfBounds op hop uses strict outside => exact .outOfBounds op hop uses strict outside
  | unterminated hop hcell hclose => exact .unterminated hop hcell hclose
  | unexpected hop hpop strict => exact .unexpected hop hpop strict

/-! ### Runs that end -/

theorem Valid.emit (valid : m.Valid s) (e : Event) : m.Valid (s.emit e) :=
  ⟨valid.tape, valid.sheltered⟩

theorem Path.steps (hp : m.Path s n t) (valid : m.Valid s) : t.steps = s.steps + n := by
  induction hp with
  | start => rfl
  | next before hstep ih =>
      rw [(move_of_step (before.valid valid).sheltered hstep).steps, ih, Nat.add_assoc]

def allowance (fuel : Nat) (limit : Option Int) (s : State) : Nat :=
  match limit with
  | some l => (l - s.steps).toNat
  | none => fuel

/-- What a run makes of the point that it has come to. One that is still running has used up
its budget, or its fuel if it has no budget. -/
def conclude (limit : Option Int) : Progress → Option (Except Halt State)
  | .finished s => some (settle (.ok s))
  | .faulted h => some (settle (.error h))
  | .running s => limit.map fun l => settle (.error ⟨.stepLimit s.ip l, s⟩)

theorem run?_eq_conclude :
    m.run? fuel limit s = conclude limit (m.proceed (allowance fuel limit s) s) := by
  cases limit with
  | none =>
      simp only [run?, runToEnd?, allowance]
      cases m.proceed fuel s <;> rfl
  | some l =>
      simp only [run?, runWithin, allowance]
      cases m.proceed (l - s.steps).toNat s <;> rfl

/-- A run that has ended ends in the same way with more fuel. -/
theorem run?_add (hrun : m.run? fuel limit s = some r) (more : Nat) :
    m.run? (more + fuel) limit s = some r := by
  cases limit with
  | some l => exact hrun
  | none =>
      rw [run?_eq_conclude] at hrun ⊢
      simp only [allowance] at hrun ⊢
      have hreach := m.reaches_proceed fuel s
      generalize m.proceed fuel s = progress at hrun hreach
      have later : m.Reaches s (more + fuel) progress := by
        cases progress with
        | finished t =>
            obtain ⟨k, hk, hp, hend⟩ := hreach
            exact ⟨k, by omega, hp, hend⟩
        | faulted h =>
            obtain ⟨k, hk, t, hp, ht, hstep⟩ := hreach
            exact ⟨k, by omega, t, hp, ht, hstep⟩
        | running t => cases hrun
      rw [proceed_of_reaches later, hrun]

def Ends (m : Machine) (limit : Option Int) (s : State) (r : Except Halt State) : Prop :=
  ∃ fuel, m.run? fuel limit s = some r

theorem Ends.unique {r' : Except Halt State} (hends : m.Ends limit s r)
    (hends' : m.Ends limit s r') : r = r' := by
  obtain ⟨fuel, hrun⟩ := hends
  obtain ⟨fuel', hrun'⟩ := hends'
  have hmore := run?_add hrun fuel'
  rw [Nat.add_comm, run?_add hrun' fuel] at hmore
  exact (Option.some.inj hmore).symm

/-- All the ways in which a run can end. It has come to the end of the program, to an
instruction that fails, or to the end of its budget, which counts the steps made before the
run as well; and it passes on its output once more. -/
inductive Verdict (m : Machine) (limit : Option Int) (s : State) :
    Except Halt State → Prop where
  | completed (k : Nat) (u : State) (hp : m.Path s k u) (hend : m.finished u = true)
      (within : ∀ l, limit = some l → (u.steps : Int) ≤ max (s.steps : Int) l) :
      Verdict m limit s (.ok (u.emit .flushed))
  | failed (k : Nat) (u : State) (f : Fault) (hp : m.Path s k u) (hu : m.finished u = false)
      (fails : m.Fails u f) (within : ∀ l, limit = some l → (u.steps : Int) < l) :
      Verdict m limit s (.error ⟨f, u.emit .flushed⟩)
  | exhausted (k : Nat) (u : State) (l : Int) (hp : m.Path s k u) (hu : m.finished u = false)
      (hlimit : limit = some l) (spent : (u.steps : Int) = max (s.steps : Int) l) :
      Verdict m limit s (.error ⟨.stepLimit u.ip l, u.emit .flushed⟩)

theorem verdict_of_run (valid : m.Valid s) (hrun : m.run? fuel limit s = some r) :
    m.Verdict limit s r := by
  rw [run?_eq_conclude] at hrun
  have hreach := m.reaches_proceed (allowance fuel limit s) s
  generalize m.proceed (allowance fuel limit s) s = progress at hrun hreach
  cases progress with
  | finished u =>
      obtain ⟨k, hk, hp, hend⟩ := hreach
      have hsteps := hp.steps valid
      cases hrun
      refine .completed k u hp hend ?_
      rintro l rfl
      simp only [allowance] at hk
      omega
  | faulted h =>
      obtain ⟨k, hk, u, hp, hu, hstep⟩ := hreach
      have hsteps := hp.steps valid
      obtain ⟨rfl, fails⟩ := fails_of_step (hp.valid valid).sheltered hstep
      cases hrun
      refine .failed k h.state h.fault hp hu fails ?_
      rintro l rfl
      simp only [allowance] at hk
      omega
  | running u =>
      obtain ⟨l, hlimit, hr⟩ := Option.map_eq_some_iff.mp hrun
      obtain ⟨hp, hu⟩ := hreach
      have hsteps := hp.steps valid
      subst hlimit hr
      simp only [allowance] at hp hsteps
      exact .exhausted _ u l hp hu rfl (by omega)

theorem ends_of_verdict (valid : m.Valid s) (verdict : m.Verdict limit s r) :
    m.Ends limit s r := by
  -- without a limit, the fuel is chosen; with one, it does not matter
  have reaches : ∀ fuel progress, m.Reaches s (allowance fuel limit s) progress →
      conclude limit progress = some r → m.Ends limit s r := by
    intro fuel progress hreach hend
    exact ⟨fuel, by rw [run?_eq_conclude, proceed_of_reaches hreach, hend]⟩
  cases verdict with
  | completed k u hp hend within =>
      have hsteps := hp.steps valid
      refine reaches k (.finished u) ⟨k, ?_, hp, hend⟩ rfl
      cases limit with
      | none => exact Nat.le_refl k
      | some l =>
          have := within l rfl
          simp only [allowance]
          omega
  | failed k u f hp hu fails within =>
      have hsteps := hp.steps valid
      refine reaches (k + 1) (.faulted ⟨f, u⟩) ⟨k, ?_, u, hp, hu, step_of_fails fails⟩ rfl
      cases limit with
      | none => exact Nat.lt_succ_self k
      | some l =>
          have := within l rfl
          simp only [allowance]
          omega
  | exhausted k u l hp hu hlimit spent =>
      have hsteps := hp.steps valid
      subst hlimit
      refine reaches 0 (.running u) ⟨?_, hu⟩ rfl
      have hcount : allowance 0 (some l) s = k := by
        simp only [allowance]
        omega
      rw [hcount]
      exact hp

theorem ends_iff_verdict (valid : m.Valid s) : m.Ends limit s r ↔ m.Verdict limit s r := by
  constructor
  · rintro ⟨fuel, hrun⟩
    exact verdict_of_run valid hrun
  · exact ends_of_verdict valid

theorem finished_of_ends (valid : m.Valid s) (hends : m.Ends limit s (.ok t)) :
    m.finished t = true := by
  cases (ends_iff_verdict valid).mp hends with
  | completed k u hp hend within => exact hend

/-- A run that ends has come to the end of the program, to an instruction that fails, or to
the end of its budget. In each case the output is passed on once more. -/
theorem run_cases (valid : m.Valid s) (hrun : m.run? fuel limit s = some r) :
    ∃ n t, m.Path s n t ∧
      ((m.finished t = true ∧ r = .ok (t.emit .flushed)) ∨
        (∃ f, m.finished t = false ∧ m.Fails t f ∧ r = .error ⟨f, t.emit .flushed⟩) ∨
        ∃ l, limit = some l ∧ m.finished t = false ∧
          r = .error ⟨.stepLimit t.ip l, t.emit .flushed⟩) := by
  cases verdict_of_run valid hrun with
  | completed k u hp hend _ => exact ⟨k, u, hp, .inl ⟨hend, rfl⟩⟩
  | failed k u f hp hu fails _ => exact ⟨k, u, hp, .inr (.inl ⟨f, hu, fails, rfl⟩)⟩
  | exhausted k u l hp hu hlimit _ => exact ⟨k, u, hp, .inr (.inr ⟨l, hlimit, hu, rfl⟩)⟩

/-- A run from a state whose next instruction fails ends at once. -/
theorem run_of_fails (hu : m.finished s = false) (fails : m.Fails s f) (fuel : Nat) :
    m.run? (fuel + 1) none s = some (.error ⟨f, s.emit .flushed⟩) := by
  simp only [run?, runToEnd?, proceed_succ hu, step_of_fails fails, settle]

/-- What a run leaves behind: a state that it came to, with the output passed on. -/
theorem exists_path_of_run (valid : m.Valid s) (hrun : m.run? fuel limit s = some r) :
    ∃ n t, m.Path s n t ∧
      (r = .ok (t.emit .flushed) ∨ ∃ f, r = .error ⟨f, t.emit .flushed⟩) := by
  obtain ⟨n, t, hp, ⟨-, hr⟩ | ⟨f, -, -, hr⟩ | ⟨l, -, -, hr⟩⟩ := run_cases valid hrun
  · exact ⟨n, t, hp, .inl hr⟩
  · exact ⟨n, t, hp, .inr ⟨_, hr⟩⟩
  · exact ⟨n, t, hp, .inr ⟨_, hr⟩⟩

/-- What every step keeps and passing on the output keeps, holds wherever the machine comes. -/
theorem Reachable.keeps {P : State → Prop} (reachable : m.Reachable start s)
    (valid : m.Valid start) (step : ∀ s t, m.Valid s → P s → m.step s = .ok t → P t)
    (flush : ∀ s, P s → P (s.emit .flushed)) (hstart : P start) : m.Valid s ∧ P s := by
  have both : ∀ s t, m.Valid s ∧ P s → m.step s = .ok t → m.Valid t ∧ P t :=
    fun s t h hstep => ⟨h.1.step hstep, step s t h.1 h.2 hstep⟩
  have ended : ∀ {s t n}, m.Valid s ∧ P s → m.Path s n t →
      m.Valid (t.emit .flushed) ∧ P (t.emit .flushed) := by
    intro s t n h hp
    obtain ⟨ht, hkept⟩ := hp.keeps both h
    exact ⟨ht.emit _, flush t hkept⟩
  induction reachable with
  | fresh => exact ⟨valid, hstart⟩
  | stepped _ hstep ih => exact both _ _ ih hstep
  | stepFailed _ hstep ih =>
      rw [(fails_of_step ih.1.sheltered hstep).1]
      exact ih
  | ran _ hrun ih =>
      obtain ⟨n, t, hp, heq | ⟨f, heq⟩⟩ := exists_path_of_run ih.1 hrun
      · cases heq
        exact ended ih hp
      · cases heq
  | runFailed _ hrun ih =>
      obtain ⟨n, t, hp, heq | ⟨f, heq⟩⟩ := exists_path_of_run ih.1 hrun
      · cases heq
      · cases heq
        exact ended ih hp

theorem Reachable.valid (reachable : m.Reachable start s) (valid : m.Valid start) :
    m.Valid s :=
  (reachable.keeps (P := fun _ => True) valid (fun _ _ _ _ _ => trivial) (fun _ _ => trivial)
    trivial).1

/-- A run that failed at an instruction fails there again, and does nothing else. -/
theorem run_again (valid : m.Valid s) (hrun : m.run? fuel limit s = some (.error h))
    (failed : ∀ ip l, h.fault ≠ .stepLimit ip l) (more : Nat) :
    m.run? (more + 1) none h.state = some (.error ⟨h.fault, h.state.emit .flushed⟩) := by
  obtain ⟨n, t, -, ⟨-, hr⟩ | ⟨f, hu, fails, hr⟩ | ⟨l, -, -, hr⟩⟩ := run_cases valid hrun
  · cases hr
  · cases hr
    exact run_of_fails (s := t.emit .flushed) hu (fails.emit .flushed) more
  · cases hr
    exact (failed _ _ rfl).elim

/-- In every state that steps, runs and their failures lead to, a step fails exactly in four
cases: past the last instruction; at a loop start with a zero cell and no matching loop end;
under the strict policy, at an instruction that uses a cell outside the tape; and under the
strict policy, at a loop end with no open loop. A step that fails leaves the state as it is,
and one that succeeds is counted. A run from a state in which an instruction fails ends at
once, and so does a run after one that failed; all it does is to pass on the output. -/
theorem failing_steps_change_nothing {size : Int} {cells : Nat}
    (valid : StepSize.ofInt size = .ok cells) (m : Machine) (input : List UInt8) (s : State)
    (reachable : m.Reachable (State.initial cells input) s) :
    (m.step s = .error ⟨.pastEnd, s⟩ ↔ m.program.size ≤ s.ip) ∧
    (m.step s = .error ⟨.unterminatedLoop s.ip, s⟩ ↔
      m.program.opcode? s.ip = some .loopStart ∧ m.denied? .loopStart s = none ∧
        s.tape.current? = some 0 ∧ m.program.loopEnd? s.ip = none) ∧
    (m.step s = .error ⟨.outOfBounds s.ip s.tape.cursor s.tape.length, s⟩ ↔
      m.policy = .strict ∧ s.tape.length ≤ s.tape.cursor ∧
        ∃ op, m.program.opcode? s.ip = some op ∧ op.usesCell = true) ∧
    (m.step s = .error ⟨.unexpectedLoopEnd s.ip, s⟩ ↔
      m.policy = .strict ∧ m.program.opcode? s.ip = some .loopEnd ∧ s.loops.toList = []) ∧
    (∀ h, m.step s = .error h → h.state = s ∧
      (h.fault = .pastEnd ∨ h.fault = .outOfBounds s.ip s.tape.cursor s.tape.length ∨
        h.fault = .unterminatedLoop s.ip ∨ h.fault = .unexpectedLoopEnd s.ip)) ∧
    (∀ t, m.step s = .ok t → t.steps = s.steps + 1) ∧
    (∀ f, m.step s = .error ⟨f, s⟩ → m.finished s = false →
      ∀ fuel, m.run? (fuel + 1) none s = some (.error ⟨f, s.emit .flushed⟩)) ∧
    (∀ fuel limit h, m.run? fuel limit s = some (.error h) →
      (∀ ip l, h.fault ≠ .stepLimit ip l) →
      ∀ more, m.run? (more + 1) none h.state =
        some (.error ⟨h.fault, h.state.emit .flushed⟩)) := by
  have pos : 0 < cells := (StepSize.ofInt_eq_ok_iff.mp valid).2.1
  have hs : m.Valid s := reachable.valid (valid_initial m pos input)
  have fails : ∀ {f}, m.step s = .error ⟨f, s⟩ ↔ m.Fails s f := step_eq_error_iff hs.sheltered
  refine ⟨fails.trans fails_pastEnd_iff, fails.trans fails_unterminated_iff,
    fails.trans fails_outOfBounds_iff, fails.trans fails_unexpected_iff, ?_, ?_, ?_, ?_⟩
  · intro h hstep
    obtain ⟨hstate, hfault⟩ := fails_of_step hs.sheltered hstep
    exact ⟨hstate, hfault.names⟩
  · intro t hstep
    exact (move_of_step hs.sheltered hstep).steps
  · intro f hstep hu fuel
    exact run_of_fails hu (fails.mp hstep) fuel
  · intro fuel limit h hrun failed more
    exact run_again hs hrun failed more

/-- The program `<,` on one cell and the input byte 5: its run fails at the read, and in the
state in which it is left the read fails once more and the byte is still there. -/
theorem denied_read_keeps_its_byte :
    let m : Machine := { program := #[6, 7], policy := .strict, eof := .zero }
    ∃ s, m.Reachable (State.initial 1 [5]) s ∧ s.unread = [5] ∧ s.steps = 1 ∧
      m.step s = .error ⟨.outOfBounds 1 4294967295 1, s⟩ ∧
      ∀ fuel, m.run? (fuel + 1) none s =
        some (.error ⟨.outOfBounds 1 4294967295 1, s.emit .flushed⟩) := by
  intro m
  obtain ⟨h, hrun, hip, hcursor, hlength, hunread, hsteps⟩ : ∃ h,
      m.run? 2 none (State.initial 1 [5]) = some (.error h) ∧ h.state.ip = 1 ∧
      h.state.tape.cursor = 4294967295 ∧ h.state.tape.length = 1 ∧ h.state.unread = [5] ∧
      h.state.steps = 1 := ⟨_, rfl, rfl, rfl, rfl, rfl, rfl⟩
  have reachable : m.Reachable (State.initial 1 [5]) h.state := .runFailed .fresh hrun
  have valid : StepSize.ofInt 1 = .ok 1 := rfl
  obtain ⟨-, -, outside, -, -, -, again, -⟩ :=
    failing_steps_change_nothing valid m [5] h.state reachable
  rw [hip, hcursor, hlength] at outside
  have hstep := outside.mpr ⟨rfl, by decide, .read, rfl, rfl⟩
  have hu : m.finished h.state = false := unfinished_iff.mpr (by rw [hip]; decide)
  exact ⟨h.state, reachable, hunread, hsteps, hstep, again _ hstep hu⟩

end NibTape.Machine

import NibTape.Fuzz.Outcome
import NibTape.Proofs.Execution

/-!
# Safety of unchecked accesses

The permissive policy does not check accesses. That is justified by an invariant of every
execution: the tape is sound and, under that policy, the cursor stands on a cell. Growth
compares the cursor with the length for equality only, so the invariant has to survive the
wrap of the cursor at its span as well, whether the tape is shorter, as long or longer.

With the invariant, the ways in which a step can fail are exactly the declared faults, and
so are the ways in which a run can. A test run has an outcome therefore, but for two cases: a
budget that is used up and has too many digits to be told, and a step size that is a text.
-/

namespace NibTape

namespace Tape

/-- What holds of a tape whatever was done with it: it has a cell, it can grow, and its
cursor is one of the positions. -/
structure Sound (t : Tape) : Prop where
  stepSize : 0 < t.stepSize
  length : 0 < t.length
  cursor : t.cursor < span

variable {t : Tape}

theorem span_pos : 0 < span := by decide

theorem sound_blank {stepSize : Nat} (pos : 0 < stepSize) : (blank stepSize).Sound :=
  ⟨pos, pos, span_pos⟩

theorem Sound.advance (h : t.Sound) : t.advance.Sound := by
  refine ⟨?_, ?_, ?_⟩
  · simpa using h.stepSize
  · rw [length_advance]
    have hlen := h.length
    split <;> omega
  · rw [cursor_advance]
    exact Nat.mod_lt _ span_pos

theorem Sound.retreat (h : t.Sound) (policy : Policy) : (policy.retreat t).Sound := by
  refine ⟨?_, ?_, ?_⟩
  · simpa using h.stepSize
  · simpa using h.length
  · have hcursor := h.cursor
    cases policy with
    | permissive =>
        rw [Policy.cursor_retreat_permissive]
        omega
    | strict =>
        simp only [Policy.retreat, cursor_retreat]
        split
        · omega
        · exact Nat.mod_lt _ span_pos

theorem Sound.set (h : t.Sound) (v : UInt8) : (t.set v).Sound :=
  ⟨h.stepSize, h.length, h.cursor⟩

/-- A cursor on a cell moves right onto a cell. The next position is at most the length,
also when it wraps, and at the length the tape grows. -/
theorem advance_cursor_lt (pos : 0 < t.stepSize) (h : t.cursor < t.length) :
    t.advance.cursor < t.advance.length := by
  have hle : (t.cursor + 1) % span ≤ t.length :=
    Nat.le_trans (Nat.mod_le _ _) h
  rw [cursor_advance, length_advance]
  cases hgrow : t.growsOnAdvance with
  | true =>
      rw [if_pos rfl]
      omega
  | false =>
      have hne : (t.cursor + 1) % span ≠ t.length := by
        simpa [growsOnAdvance] using hgrow
      rw [if_neg (by decide)]
      omega

theorem retreat_cursor_lt (h : t.cursor < t.length) :
    (Policy.permissive.retreat t).cursor < (Policy.permissive.retreat t).length := by
  rw [Policy.cursor_retreat_permissive, Policy.length_retreat]
  omega

end Tape

/-- A property of tapes that moves and stores keep is kept by every instruction. -/
theorem Scene.obey_keeps {P : Tape → Prop} {policy : Policy} {eof : EndOfInput}
    (advance : ∀ t, P t → P t.advance) (retreat : ∀ t, P t → P (policy.retreat t))
    (set : ∀ t v, P t → P (t.set v)) (op : Opcode) {w : Scene} (h : P w.tape) :
    P (w.obey policy eof op).tape := by
  cases op with
  | incrPtr => exact advance _ h
  | decrPtr => exact retreat _ h
  | incrVal => exact set _ _ h
  | decrVal => exact set _ _ h
  | read =>
      simp only [obey, receive]
      split
      · exact set _ _ h
      · split
        · exact set _ _ h
        · exact h
  | write => exact h
  | loopStart => exact h
  | loopEnd => exact h

namespace Machine

variable {m : Machine} {n : Nat} {s t : State} {h : Halt}

/-- A property of tapes that moves and stores keep is kept by every step. -/
theorem Move.keeps_tape {P : Tape → Prop} (move : m.Move s t)
    (advance : ∀ t, P t → P t.advance) (retreat : ∀ t, P t → P (m.policy.retreat t))
    (set : ∀ t v, P t → P (t.set v)) (hs : P s.tape) : P t.tape := by
  have hscene := move.scene
  rw [← State.scene_tape, hscene]
  cases m.program.opcode? s.ip with
  | none => exact hs
  | some op => exact Scene.obey_keeps advance retreat set op hs

/-- The invariant of all executions. -/
structure Valid (m : Machine) (s : State) : Prop where
  tape : s.tape.Sound
  sheltered : m.Sheltered s

theorem valid_initial (m : Machine) {stepSize : Nat} (pos : 0 < stepSize)
    (input : List UInt8) : m.Valid (State.initial stepSize input) :=
  ⟨Tape.sound_blank pos, fun _ => pos⟩

theorem Valid.step (valid : m.Valid s) (hstep : m.step s = .ok t) : m.Valid t := by
  have move := move_of_step valid.sheltered hstep
  refine ⟨?_, ?_⟩
  · exact move.keeps_tape (fun _ h => h.advance) (fun _ h => h.retreat m.policy)
      (fun _ v h => h.set v) valid.tape
  · intro lenient
    -- the step size goes along, since only a tape that can grow keeps the cursor on a cell
    have housed := move.keeps_tape
      (P := fun t => t.Sound ∧ t.cursor < t.length)
      (fun _ h => ⟨h.1.advance, Tape.advance_cursor_lt h.1.stepSize h.2⟩)
      (fun _ h => ⟨h.1.retreat m.policy, by
        rw [lenient]
        exact Tape.retreat_cursor_lt h.2⟩)
      (fun _ v h => ⟨h.1.set v, h.2⟩)
      ⟨valid.tape, valid.sheltered lenient⟩
    exact housed.2

theorem Path.valid (hp : m.Path s n t) (valid : m.Valid s) : m.Valid t :=
  hp.keeps (fun _ _ => Valid.step) valid

end Machine

/-- The faults with which a run under a policy and a budget may end. -/
def Fault.Declared (policy : Policy) (limit : Option Int) : Fault → Prop
  | unterminatedLoop _ => True
  | stepLimit _ l => limit = some l
  | outOfBounds _ _ _ | unexpectedLoopEnd _ => policy = .strict
  | pastEnd | missingCell | noOpenLoop => False

/-- Only a budget that cannot be written has no kind. -/
theorem Fault.Declared.kind?_eq_none_iff {policy : Policy} {limit : Option Int} {f : Fault}
    (declared : f.Declared policy limit) :
    f.kind? = none ↔ ∃ ip l, f = .stepLimit ip l ∧ Nat.pow 10 Literal.maxDigits ≤ l.natAbs := by
  cases f with
  | stepLimit ip l =>
      simp only [kind?, ← Decimal.isWritable_eq_false_iff]
      constructor
      · intro h
        exact ⟨ip, l, rfl, by simpa using h⟩
      · rintro ⟨_, _, ⟨⟩, h⟩
        rw [h]
        rfl
  | outOfBounds ip cursor length => simp [kind?]
  | unexpectedLoopEnd ip => simp [kind?]
  | unterminatedLoop ip => simp [kind?]
  | pastEnd => exact declared.elim
  | missingCell => exact declared.elim
  | noOpenLoop => exact declared.elim

namespace Machine

variable {m : Machine} {s : State} {h : Halt}

/-- A step before the end of the program fails with a declared fault. -/
theorem declared_of_step (valid : m.Valid s) (unfinished : m.finished s = false)
    (hstep : m.step s = .error h) (limit : Option Int) : h.fault.Declared m.policy limit := by
  obtain ⟨-, fails⟩ := fails_of_step valid.sheltered hstep
  generalize h.fault = fault at fails
  cases fails with
  | pastEnd hend =>
      have hlt := unfinished_iff.mp unfinished
      omega
  | outOfBounds _ _ _ strict _ => exact strict
  | unterminated _ _ _ => trivial
  | unexpected _ _ strict => exact strict

/-- A run fails with a declared fault. -/
theorem declared_of_run {fuel : Nat} {limit : Option Int} (valid : m.Valid s)
    (hrun : m.run? fuel limit s = some (.error h)) : h.fault.Declared m.policy limit := by
  cases limit with
  | none =>
      obtain ⟨n, u, g, hp, hu, hstep, rfl⟩ := runToEnd?_eq_error_iff.mp ⟨fuel, hrun⟩
      exact declared_of_step (hp.valid valid) hu hstep none
  | some limit =>
      simp only [run?, runWithin, Option.some.injEq] at hrun
      split at hrun
      · simp [settle] at hrun
      · rename_i g hg
        obtain ⟨k, -, u, hp, hu, hstep⟩ := proceed_eq_faulted_iff.mp hg
        simp only [settle, Except.error.injEq] at hrun
        rw [← hrun]
        exact declared_of_step (hp.valid valid) hu hstep (some limit)
      · simp only [settle, Except.error.injEq] at hrun
        rw [← hrun]
        rfl

end Machine

namespace Fuzz

/-- What a run that ended under a policy and a budget may be reported as. -/
def Outcome.Declared (policy : Policy) (limit : Option Int) : Outcome → Prop
  | completed _ => True
  | failed reason => ∃ f : Fault, f.Declared policy .none ∧ f.kind? = some reason
  | exhausted l => limit = some l
  | none => False

variable {m : Machine} {s : State}

/-- What a run comes to that has no outcome: its budget is used up, and cannot be written. -/
def Untold (limit : Option Int) (r : Except Halt State) : Prop :=
  ∃ ip l t, limit = some l ∧ Nat.pow 10 Literal.maxDigits ≤ l.natAbs ∧
    r = .error ⟨.stepLimit ip l, t⟩

/-- Every run that ends has an outcome, unless it has used up a budget that cannot be written. -/
theorem outcome_of_run {fuel : Nat} {limit : Option Int} {r : Except Halt State}
    (valid : m.Valid s) (hrun : m.run? fuel limit s = some r) :
    (∃ o, Outcome.ofRun? r = some o ∧ o.Declared m.policy limit) ∨
      (Outcome.ofRun? r = none ∧ Untold limit r) := by
  cases r with
  | ok t => exact .inl ⟨_, rfl, trivial⟩
  | error h =>
      have declared := Machine.declared_of_run valid hrun
      obtain ⟨fault, state⟩ := h
      cases fault with
      | stepLimit ip l =>
          cases hl : Decimal.isWritable l with
          | true => exact .inl ⟨.exhausted l, by simp [Outcome.ofRun?, Fault.kind?, hl,
              Outcome.ofFault], declared⟩
          | false => exact .inr ⟨by simp [Outcome.ofRun?, Fault.kind?, hl], ip, l, state, declared,
              Decimal.isWritable_eq_false_iff.mp hl, rfl⟩
      | outOfBounds ip cursor length =>
          exact .inl ⟨_, rfl, .outOfBounds ip cursor length, declared, rfl⟩
      | unexpectedLoopEnd ip => exact .inl ⟨_, rfl, .unexpectedLoopEnd ip, declared, rfl⟩
      | unterminatedLoop ip => exact .inl ⟨_, rfl, .unterminatedLoop ip, trivial, rfl⟩
      | pastEnd => exact declared.elim
      | missingCell => exact declared.elim
      | noOpenLoop => exact declared.elim

def machine (program : List UInt8) (strict : Bool) : Machine :=
  { program := Packed.unpack program, policy := if strict then .strict else .permissive,
    eof := .allOnes }

variable {program input : List UInt8} {strict : Bool} {limit : Int}

theorem make_of_check {v : Value} {cells : Nat} (valid : StepSize.check v = .ok cells) :
    Config.make { stepSize := v, strict } = .ok { stepSize := v, strict, eof := .allOnes } := by
  simp [Config.make, Config.checkStepSize, valid, bind, Except.bind, pure, Except.pure]

section InRange

variable {size : Int} {cells : Nat} (valid : StepSize.ofInt size = .ok cells)

include valid

/-- With a step size in range the machine of a test run is set up. -/
theorem setUp_of_valid :
    Config.setUp? { stepSize := .int size, strict, eof := .allOnes } (Packed.unpack program) input =
      some (machine program strict, State.initial cells input) := by
  obtain ⟨rfl, -, -⟩ := StepSize.ofInt_eq_ok_iff.mp valid
  rfl

/-- The outcome of a test run is that of the run. -/
theorem execute_of_valid {o : Outcome}
    (hrun : Outcome.ofRun? ((machine program strict).runWithin limit
      (State.initial cells input)) = some o) :
    execute program strict input (.int size) limit = .ok o := by
  simp only [execute, make_of_check (v := .int size) valid, setUp_of_valid valid]
  cases hr : (machine program strict).runWithin limit (State.initial cells input) with
  | ok s =>
      rw [hr] at hrun
      cases hrun
      rfl
  | error h =>
      rw [hr] at hrun
      simp only [hrun]

/-- A test run without an outcome ends with the fault of the run. -/
theorem execute_of_untold {h : Halt}
    (hrun : (machine program strict).runWithin limit (State.initial cells input) = .error h)
    (hnone : Outcome.ofRun? (.error h) = none) :
    execute program strict input (.int size) limit = .error (.fault h.fault) := by
  simp only [execute, make_of_check (v := .int size) valid, setUp_of_valid valid, hrun, hnone]

/-- A test run has a declared outcome, unless its budget is used up and cannot be written. -/
theorem execute_declared (program input : List UInt8) (strict : Bool) (limit : Int) :
    (∃ o, execute program strict input (.int size) limit = .ok o ∧
      o.Declared (if strict then .strict else .permissive) (some limit)) ∨
    (Nat.pow 10 Literal.maxDigits ≤ limit.natAbs ∧
      ∃ ip, execute program strict input (.int size) limit =
        .error (.fault (.stepLimit ip limit))) := by
  have pos : 0 < cells := (StepSize.ofInt_eq_ok_iff.mp valid).2.1
  let test := machine program strict
  let start := State.initial cells input
  have hrun : test.run? 0 (some limit) start = some (test.runWithin limit start) := rfl
  obtain ⟨o, ho, declared⟩ | ⟨hnone, ip, l, t, ⟨⟩, long, hr⟩ :=
    outcome_of_run (Machine.valid_initial test pos input) hrun
  · exact .inl ⟨o, execute_of_valid valid ho, declared⟩
  · rw [hr] at hnone
    exact .inr ⟨long, ip, execute_of_untold valid hr hnone⟩

end InRange

/-- A budget that has been used up by a test run can be written. -/
theorem writable_of_execute {size : Value} {l : Int}
    (h : execute program strict input size limit = .ok (.exhausted l)) :
    Decimal.isWritable l = true := by
  have told : ∀ {f : Fault} {s : State},
      Outcome.ofRun? (.error ⟨f, s⟩) = some (.exhausted l) → Decimal.isWritable l = true := by
    intro f s hrun
    obtain ⟨kind, hkind, hfault⟩ := Option.map_eq_some_iff.mp hrun
    cases f with
    | stepLimit ip limit =>
        cases hfault
        cases hl : Decimal.isWritable l with
        | true => rfl
        | false => simp [Fault.kind?, hl] at hkind
    | _ => cases hfault
  unfold execute at h
  repeat' split at h
  all_goals cases h
  exact told ‹_›

/-- A step size given as a text passes the check, but the test run does not take place. -/
theorem execute_of_text {text : String} {cells : Nat}
    (valid : StepSize.check (.text text) = .ok cells) :
    execute program strict input (.text text) limit = .error .notANumber := by
  simp only [execute, make_of_check valid]
  rfl

/-- A negative budget is used up before the first step. -/
theorem execute_of_negative {size : Int} {cells : Nat} (valid : StepSize.ofInt size = .ok cells)
    (nonempty : program ≠ []) (negative : limit ≤ 0)
    (long : Nat.pow 10 Literal.maxDigits ≤ limit.natAbs) :
    execute program strict input (.int size) limit = .error (.fault (.stepLimit 0 limit)) := by
  have hsize : 0 < (Packed.unpack program).size := by
    have := List.length_pos_iff.mpr nonempty
    have := Packed.size_unpack program
    omega
  have hend : (machine program strict).finished (State.initial cells input) = false :=
    Machine.unfinished_iff.mpr hsize
  have hrun : (machine program strict).runWithin limit (State.initial cells input) =
      .error ⟨.stepLimit 0 limit, (State.initial cells input).emit .flushed⟩ := by
    have hsteps : (State.initial cells input).steps = 0 := rfl
    have hzero : (limit - ((State.initial cells input).steps : Int)).toNat = 0 :=
      Int.toNat_of_nonpos (by rwa [hsteps, Int.natCast_zero, Int.sub_zero])
    rw [Machine.runWithin, hzero, Machine.proceed, hend]
    rfl
  refine execute_of_untold valid hrun ?_
  simp [Outcome.ofRun?, Fault.kind?, Decimal.isWritable_eq_false_iff.mpr long]

end Fuzz

/-- Under the permissive policy the cursor always stands on a cell, so that accesses need no
check. A run ends at the end of the program or with a declared fault, and a test run has an
outcome: it completes, fails with a declared fault, or uses up its budget. A budget of more than
4300 digits is the one exception: it cannot be written, so when it is used up that cannot be
told, and the test run has no outcome. It does not take place either if the step size is a text
that passes the check. -/
theorem runs_end_as_declared {size : Int} {cells : Nat}
    (valid : StepSize.ofInt size = .ok cells) (program : Program) (policy : Policy)
    (eof : EndOfInput) (input : List UInt8) :
    let m : Machine := { program, policy, eof }
    let start := State.initial cells input
    (∀ n s, policy = .permissive → m.Path start n s → s.tape.cursor < s.tape.length) ∧
    (∀ fuel limit h, m.run? fuel limit start = some (.error h) →
      h.fault.Declared policy limit ∧
      (h.fault.kind? = none ↔
        ∃ ip l, h.fault = .stepLimit ip l ∧ Nat.pow 10 Literal.maxDigits ≤ l.natAbs)) ∧
    (∀ fuel limit r, m.run? fuel limit start = some r →
      (∃ o, Fuzz.Outcome.ofRun? r = some o ∧ o.Declared policy limit) ∨
      ∃ ip l t, limit = some l ∧ Nat.pow 10 Literal.maxDigits ≤ l.natAbs ∧
        r = .error ⟨.stepLimit ip l, t⟩) ∧
    (∀ bytes strict limit,
      (∃ o, Fuzz.execute bytes strict input (.int size) limit = .ok o ∧
        o.Declared (if strict then .strict else .permissive) (some limit)) ∨
      (Nat.pow 10 Literal.maxDigits ≤ limit.natAbs ∧
        ∃ ip, Fuzz.execute bytes strict input (.int size) limit =
          .error (.fault (.stepLimit ip limit)))) ∧
    ∀ text k, StepSize.check (.text text) = .ok k → ∀ bytes strict limit,
      Fuzz.execute bytes strict input (.text text) limit = .error .notANumber := by
  intro m start
  have pos : 0 < cells := (StepSize.ofInt_eq_ok_iff.mp valid).2.1
  have hstart : m.Valid start := Machine.valid_initial m pos input
  refine ⟨?_, ?_, ?_, ?_, ?_⟩
  · intro n s lenient hp
    exact (hp.valid hstart).sheltered lenient
  · intro fuel limit h hrun
    have declared := Machine.declared_of_run hstart hrun
    exact ⟨declared, declared.kind?_eq_none_iff⟩
  · intro fuel limit r hrun
    exact (Fuzz.outcome_of_run hstart hrun).imp id And.right
  · exact fun bytes strict limit => Fuzz.execute_declared valid bytes input strict limit
  · exact fun text k accepted bytes strict limit => Fuzz.execute_of_text accepted

/-- With one cell a step, `<+[>+]` visits ever more cells under the permissive policy and is
always on one; packed and tested under the strict policy, it has a declared outcome. -/
theorem runs_end_as_declared_growing :
    let m : Machine := { program := #[6, 2, 4, 3, 2, 1], policy := .permissive, eof := .zero }
    (∀ n s, m.Path (State.initial 1 []) n s → s.tape.cursor < s.tape.length) ∧
    ∃ o, Fuzz.execute [0x62, 0x43, 0x21] true [] (.int 1) 100 = .ok o ∧
      o.Declared .strict (some 100) := by
  intro m
  have valid : StepSize.ofInt 1 = .ok 1 := rfl
  obtain ⟨housed, -, -, tested, -⟩ := runs_end_as_declared valid m.program m.policy m.eof []
  have short : (100 : Int).natAbs < Nat.pow 10 Literal.maxDigits :=
    Nat.lt_of_lt_of_le (by decide) Decimal.billion_le
  have outcome := (tested [0x62, 0x43, 0x21] true 100).resolve_right
    fun untold => Nat.not_le.mpr short untold.1
  exact ⟨fun n s hp => housed n s rfl hp, outcome⟩

/-- Two test runs without an outcome: the step size is a text that passes the check, or the
budget is minus a one with 4300 zeros, which is used up before the first step. -/
theorem test_runs_without_outcome :
    (StepSize.check (.text "16") = .ok 16 ∧
      Fuzz.execute [] true [3, 1] (.text "16") 10000 = .error .notANumber) ∧
    Fuzz.execute [0] true [3, 1] (.int 4) (-(Nat.pow 10 Literal.maxDigits : Int)) =
      .error (.fault (.stepLimit 0 (-(Nat.pow 10 Literal.maxDigits : Int)))) := by
  have accepted : StepSize.check (.text "16") = .ok 16 := by
    have hread : StepSize.integer? "16" = some 16 := by decide +kernel
    rw [StepSize.check, hread]
    rfl
  refine ⟨⟨accepted, Fuzz.execute_of_text accepted⟩, ?_⟩
  obtain ⟨long, negative⟩ := Decimal.neg_pow_too_long
  generalize -(Nat.pow 10 Literal.maxDigits : Int) = limit at long negative
  have valid : StepSize.ofInt 4 = .ok 4 := rfl
  exact Fuzz.execute_of_negative valid (List.cons_ne_nil _ _) negative long

end NibTape

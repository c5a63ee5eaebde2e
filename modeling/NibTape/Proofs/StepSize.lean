import NibTape.Proofs.Parallel

/-!
# The step size is invisible

Under the permissive policy a program cannot find out the step size. Two tapes with different
step sizes grow at different moments, so their lengths differ. But each cursor stands on a
cell of its own tape, and past the end of a tape nothing was ever written, so a cell that only
one of the tapes has is zero. The wrap of the cursor at its span changes nothing in this, even
if one tape is longer than the span and the other is not.

The strict policy is different: its check compares the cursor with the length.
-/

namespace NibTape

namespace Tape

variable {t u : Tape}

/-- A tape that can grow and has its cursor on a cell, with zeros only past its end. -/
structure Contained (t : Tape) : Prop where
  stepSize : 0 < t.stepSize
  cursor : t.cursor < t.length
  blank : ∀ i, t.length ≤ i → t.value i = 0

/-- Two contained tapes with the same cursor and the same values, whatever their lengths. -/
structure SameContent (t u : Tape) : Prop where
  left : t.Contained
  right : u.Contained
  cursor : t.cursor = u.cursor
  value : ∀ i, t.value i = u.value i

theorem contained_blank {stepSize : Nat} (pos : 0 < stepSize) : (blank stepSize).Contained :=
  ⟨pos, pos, fun i _ => value_blank stepSize i⟩

/-- A move right may lengthen the tape, but only by zeros. -/
theorem Contained.advance (h : t.Contained) : t.advance.Contained := by
  refine ⟨?_, advance_cursor_lt h.stepSize h.cursor, ?_⟩
  · simpa using h.stepSize
  · intro i hi
    rw [length_advance] at hi
    rw [value_advance]
    apply h.blank
    split at hi <;> omega

theorem Contained.retreat (h : t.Contained) : (Policy.permissive.retreat t).Contained := by
  refine ⟨?_, retreat_cursor_lt h.cursor, ?_⟩
  · simpa using h.stepSize
  · intro i hi
    rw [Policy.length_retreat] at hi
    rw [Policy.value_retreat]
    exact h.blank i hi

theorem Contained.set (h : t.Contained) (v : UInt8) : (t.set v).Contained := by
  refine ⟨h.stepSize, h.cursor, ?_⟩
  intro i hi
  have hne : i ≠ t.cursor := Nat.ne_of_gt (Nat.lt_of_lt_of_le h.cursor hi)
  rw [value_set, if_neg hne]
  exact h.blank i hi

theorem respected_sameContent : Respected .permissive SameContent where
  cell h := by rw [h.value, h.cursor]
  access h := .inl ⟨h.left.cursor, h.right.cursor⟩
  advance h := by
    refine ⟨h.left.advance, h.right.advance, ?_, ?_⟩
    · rw [cursor_advance, cursor_advance, h.cursor]
    · intro i
      rw [value_advance, value_advance, h.value]
  retreat h := by
    refine ⟨h.left.retreat, h.right.retreat, ?_, ?_⟩
    · rw [Policy.cursor_retreat_permissive, Policy.cursor_retreat_permissive, h.cursor]
    · intro i
      rw [Policy.value_retreat, Policy.value_retreat, h.value]
  set v h := by
    refine ⟨h.left.set v, h.right.set v, h.cursor, ?_⟩
    intro i
    rw [value_set, value_set, h.cursor, h.value]

end Tape

/-- Two states that show the same, except that one tape may be longer than the other: the
cells that both tapes have agree, and all others are zero. -/
structure State.SameButLength (s t : State) : Prop where
  ip : s.ip = t.ip
  steps : s.steps = t.steps
  cursor : s.tape.cursor = t.tape.cursor
  loops : s.loops.toList = t.loops.toList
  unread : s.unread = t.unread
  output : s.output = t.output
  common : ∀ i, i < s.tape.length → i < t.tape.length → s.tape.cell? i = t.tape.cell? i
  zeroLeft : ∀ i, t.tape.length ≤ i → i < s.tape.length → s.tape.cell? i = some 0
  zeroRight : ∀ i, s.tape.length ≤ i → i < t.tape.length → t.tape.cell? i = some 0

/-- Two states of machines that differ in their step sizes, after equally many steps. -/
structure State.Twins (s u : State) : Prop where
  alike : s.Alike Tape.SameContent id id u
  steps : s.steps = u.steps

namespace State.Twins

variable {s u : State}

theorem ip (twins : s.Twins u) : s.ip = u.ip := twins.alike.place

theorem sameButLength (twins : s.Twins u) : s.SameButLength u := by
  have tapes : s.tape.SameContent u.tape := twins.alike.scene.tape
  refine ⟨twins.ip, twins.steps, tapes.cursor, ?_, twins.alike.scene.unread,
    twins.alike.scene.output, ?_, ?_, ?_⟩
  · simpa using twins.alike.loops
  · intro i hs hu
    simp [Tape.cell?, hs, hu, tapes.value i]
  · intro i hu hs
    simp [Tape.cell?, hs, tapes.value i, tapes.right.blank i hu]
  · intro i hs hu
    simp [Tape.cell?, hu, ← tapes.value i, tapes.left.blank i hs]

theorem emit_flushed (twins : s.Twins u) : (s.emit .flushed).Twins (u.emit .flushed) := by
  refine ⟨⟨twins.alike.place, twins.alike.loops, ?_⟩, twins.steps⟩
  rw [scene_emit_flushed, scene_emit_flushed]
  exact twins.alike.scene

theorem initial {cells cells' : Nat} (pos : 0 < cells) (pos' : 0 < cells')
    (input : List UInt8) : (State.initial cells input).Twins (State.initial cells' input) := by
  refine ⟨⟨rfl, rfl, ?_, rfl, rfl⟩, rfl⟩
  exact ⟨Tape.contained_blank pos, Tape.contained_blank pos', rfl, fun i =>
    (Tape.value_blank cells i).trans (Tape.value_blank cells' i).symm⟩

end State.Twins

namespace Machine

variable {m : Machine} {s t u : State} {n : Nat}

/-- Twins make the same step or fail for the same reason. -/
theorem step_twins (lenient : m.policy = .permissive) (twins : s.Twins u) :
    (∃ t v, m.step s = .ok t ∧ m.step u = .ok v ∧ t.Twins v) ∨
      ∃ f, m.step s = .error ⟨f, s⟩ ∧ m.step u = .error ⟨f, u⟩ := by
  have hip := twins.ip
  rcases Nat.lt_or_ge s.ip m.program.size with hlt | hge
  · cases hop : m.program.opcode? s.ip with
    | none =>
        refine .inl ⟨_, _, step_inert hlt hop, step_inert (hip ▸ hlt) (hip ▸ hop), ?_⟩
        exact ⟨⟨congrArg (· + 1) hip, twins.alike.loops, twins.alike.scene⟩,
          congrArg (· + 1) twins.steps⟩
    | some op =>
        have safe : ∀ {s : State}, s.tape.Contained → m.Sheltered s := fun h _ => h.cursor
        have left : m.Sheltered s := safe twins.alike.scene.tape.left
        have right : m.Sheltered u := safe twins.alike.scene.tape.right
        have laws : Tape.Respected m.policy Tape.SameContent := by
          rw [lenient]
          exact Tape.respected_sameContent
        have inStep : InStep Tape.SameContent id id s u (m.step s) (m.step u) :=
          inStep_of_opcode (q := m.program) laws left twins.alike hop (hip ▸ hop)
            (congrArg (· + 1) hip) (fun _ => by rw [hip])
        generalize hs : m.step s = rs at inStep
        generalize hu : m.step u = ru at inStep
        cases inStep with
        | moved alike =>
            have hsteps := (move_of_step left hs).steps
            have hsteps' := (move_of_step right hu).steps
            exact .inl ⟨_, _, rfl, rfl, alike, by rw [hsteps, hsteps', twins.steps]⟩
        | failed here =>
            rw [Fault.relocate_of_ip? (hip ▸ here)]
            exact .inr ⟨_, rfl, rfl⟩
  · have hend := finished_iff.mpr hge
    have hend' : m.finished u = true := finished_iff.mpr (hip ▸ hge)
    exact .inr ⟨_, step_of_finished hend, step_of_finished hend'⟩

theorem Path.twins (lenient : m.policy = .permissive) (twins : s.Twins u)
    (hp : m.Path s n t) : ∃ v, m.Path u n v ∧ t.Twins v := by
  induction hp with
  | start => exact ⟨u, .start, twins⟩
  | next _ hstep ih =>
      obtain ⟨v, hv, before⟩ := ih
      obtain ⟨t', v', ht, hv', after⟩ | ⟨f, hf, -⟩ := step_twins lenient before
      · rw [hstep] at ht
        cases ht
        exact ⟨v', hv.next hv', after⟩
      · rw [hstep] at hf
        cases hf

/-- How far two runs have come, if twins ran. -/
inductive TwinProgress : Progress → Progress → Prop where
  | finished {s u : State} (twins : State.Twins s u) : TwinProgress (.finished s) (.finished u)
  | faulted {f : Fault} {s u : State} (twins : State.Twins s u) :
      TwinProgress (.faulted ⟨f, s⟩) (.faulted ⟨f, u⟩)
  | running {s u : State} (twins : State.Twins s u) : TwinProgress (.running s) (.running u)

theorem proceed_twins (lenient : m.policy = .permissive) (twins : s.Twins u) (n : Nat) :
    TwinProgress (m.proceed n s) (m.proceed n u) := by
  have hfinished : m.finished u = m.finished s := by simp only [finished, twins.ip]
  induction n generalizing s u with
  | zero =>
      simp only [proceed, hfinished]
      split
      · exact .finished twins
      · exact .running twins
  | succ n ih =>
      cases hend : m.finished s with
      | true =>
          rw [proceed_finished hend, proceed_finished (hfinished.trans hend)]
          exact .finished twins
      | false =>
          rw [proceed_succ hend, proceed_succ (hfinished.trans hend)]
          obtain ⟨t, v, ht, hv, after⟩ | ⟨f, hs, hu⟩ := step_twins lenient twins
          · rw [ht, hv]
            exact ih after (by simp only [finished, after.ip])
          · rw [hs, hu]
            exact .faulted twins

/-- Two runs end alike: neither ends within the fuel, or both complete or fail for the same
reason, in states that show the same but for the length of the tape. -/
inductive SameEnding :
    Option (Except Halt State) → Option (Except Halt State) → Prop where
  | unended : SameEnding none none
  | completed {s u : State} (same : State.SameButLength s u) :
      SameEnding (some (.ok s)) (some (.ok u))
  | failed {f : Fault} {s u : State} (same : State.SameButLength s u) :
      SameEnding (some (.error ⟨f, s⟩)) (some (.error ⟨f, u⟩))

theorem sameEnding_of_twins (lenient : m.policy = .permissive) (twins : s.Twins u)
    (fuel : Nat) (limit : Option Int) :
    SameEnding (m.run? fuel limit s) (m.run? fuel limit u) := by
  cases limit with
  | none =>
      have progress := proceed_twins lenient twins fuel
      simp only [run?, runToEnd?]
      generalize m.proceed fuel s = rs at progress
      generalize m.proceed fuel u = ru at progress
      cases progress with
      | finished after => exact .completed after.emit_flushed.sameButLength
      | faulted after => exact .failed after.emit_flushed.sameButLength
      | running _ => exact .unended
  | some limit =>
      have progress := proceed_twins lenient twins (limit - s.steps).toNat
      simp only [run?, runWithin, ← twins.steps]
      generalize m.proceed (limit - s.steps).toNat s = rs at progress
      generalize m.proceed (limit - s.steps).toNat u = ru at progress
      cases progress with
      | finished after => exact .completed after.emit_flushed.sameButLength
      | faulted after => exact .failed after.emit_flushed.sameButLength
      | running after =>
          simp only [after.ip]
          exact .failed after.emit_flushed.sameButLength

end Machine

/-- Two permissive machines that differ in nothing but the step size show the same after every
number of steps, except for the length of the tape: both are finished or neither is, and both
fail for the same reason or neither does. Their runs, with a budget or without, end alike. -/
theorem step_size_is_invisible {size size' : Int} {cells cells' : Nat}
    (valid : StepSize.ofInt size = .ok cells) (valid' : StepSize.ofInt size' = .ok cells')
    (program : Program) (eof : EndOfInput) (input : List UInt8) :
    let m : Machine := { program, policy := .permissive, eof }
    let start := State.initial cells input
    let start' := State.initial cells' input
    (∀ n s, m.Path start n s → ∃ u, m.Path start' n u ∧ s.SameButLength u ∧
      m.finished s = m.finished u ∧
      ∀ f, (∃ t, m.step s = .error ⟨f, t⟩) ↔ ∃ v, m.step u = .error ⟨f, v⟩) ∧
    (∀ n u, m.Path start' n u → ∃ s, m.Path start n s ∧ s.SameButLength u) ∧
    ∀ fuel limit, Machine.SameEnding (m.run? fuel limit start) (m.run? fuel limit start') := by
  intro m start start'
  have pos : 0 < cells := (StepSize.ofInt_eq_ok_iff.mp valid).2.1
  have pos' : 0 < cells' := (StepSize.ofInt_eq_ok_iff.mp valid').2.1
  have twins : start.Twins start' := .initial pos pos' input
  have twins' : start'.Twins start := .initial pos' pos input
  refine ⟨?_, ?_, Machine.sameEnding_of_twins rfl twins⟩
  · intro n s hp
    obtain ⟨u, hq, after⟩ := hp.twins rfl twins
    refine ⟨u, hq, after.sameButLength, by simp only [Machine.finished, after.ip], ?_⟩
    intro f
    obtain ⟨t, v, ht, hv, -⟩ | ⟨f', hs, hu⟩ := Machine.step_twins (m := m) rfl after
    · simp [ht, hv]
    · simp [hs, hu]
  · intro n u hq
    obtain ⟨s, hp, -⟩ := hq.twins rfl twins'
    obtain ⟨u', hq', after⟩ := hp.twins rfl twins
    rw [hq.unique hq']
    exact ⟨s, hp, after.sameButLength⟩

/-- The program `>+<.` on tapes that grow by one cell and by five: the first grows once and the
second not at all, and after all four steps nothing else is different. -/
theorem growth_is_invisible_after_four_steps :
    let m : Machine := { program := #[3, 2, 6, 0], policy := .permissive, eof := .zero }
    ∃ s u, m.Path (State.initial 1 []) 4 s ∧ m.Path (State.initial 5 []) 4 u ∧
      s.tape.length = 2 ∧ u.tape.length = 5 ∧ s.SameButLength u := by
  intro m
  obtain ⟨s, hp, hlength⟩ : ∃ s, m.Path (State.initial 1 []) 4 s ∧ s.tape.length = 2 :=
    ⟨_, .next (.next (.next (.next .start rfl) rfl) rfl) rfl, rfl⟩
  obtain ⟨v, hq, hlength'⟩ : ∃ v, m.Path (State.initial 5 []) 4 v ∧ v.tape.length = 5 :=
    ⟨_, .next (.next (.next (.next .start rfl) rfl) rfl) rfl, rfl⟩
  have valid : StepSize.ofInt 1 = .ok 1 := rfl
  have valid' : StepSize.ofInt 5 = .ok 5 := rfl
  obtain ⟨u, hu, same, -⟩ := (step_size_is_invisible valid valid' m.program m.eof []).1 4 s hp
  rw [hq.unique hu] at hlength'
  exact ⟨s, u, hp, hu, hlength, hlength', same⟩

end NibTape

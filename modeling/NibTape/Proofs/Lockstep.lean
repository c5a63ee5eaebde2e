import NibTape.Proofs.Parallel

/-!
# Runs in lockstep

Two machines that make the same number of steps are compared after each of them. If they stay
alike, their runs come equally far, and whatever a run makes of the point that it has come to,
it makes the same of both.

A step looks at the position, the open loops, the tape and, at a read, the next input byte. It
does not look at what was written before, nor at the input that it does not read. So two states
of one program stay beside each other as long as their reads get the same bytes, also if the
one stands behind some more output than the other, or if their inputs end at different places.
-/

namespace NibTape

/-- Two runs have come equally far, to states that `O` relates and with faults that `F` relates. -/
inductive Progress.Alike (O : State → State → Prop) (F : Fault → Fault → Prop) :
    Progress → Progress → Prop where
  | finished {s u : State} (states : O s u) : Alike O F (.finished s) (.finished u)
  | faulted {f g : Fault} {s u : State} (states : O s u) (faults : F f g) :
      Alike O F (.faulted ⟨f, s⟩) (.faulted ⟨g, u⟩)
  | running {s u : State} (states : O s u) : Alike O F (.running s) (.running u)

def Progress.state : Progress → State
  | finished s => s
  | faulted h => h.state
  | running s => s

namespace Progress.Alike

variable {O O' : State → State → Prop} {F : Fault → Fault → Prop} {p q : Progress}

theorem imp (alike : p.Alike O F q) (weaken : ∀ s u, O s u → O' s u) : p.Alike O' F q := by
  cases alike with
  | finished states => exact .finished (weaken _ _ states)
  | faulted states faults => exact .faulted (weaken _ _ states) faults
  | running states => exact .running (weaken _ _ states)

theorem state (alike : p.Alike O F q) : O p.state q.state := by
  cases alike with
  | finished states => exact states
  | faulted states _ => exact states
  | running states => exact states

theorem trans {r : Progress} (alike : p.Alike O F q) (same : q.Alike O' Eq r) :
    p.Alike (fun s v => ∃ u, O s u ∧ O' u v) F r := by
  cases alike with
  | finished states =>
      cases same with
      | finished states' => exact .finished ⟨_, states, states'⟩
  | faulted states faults =>
      cases same with
      | faulted states' faults' => exact .faulted ⟨_, states, states'⟩ (faults' ▸ faults)
  | running states =>
      cases same with
      | running states' => exact .running ⟨_, states, states'⟩

end Progress.Alike

namespace EndOfInput

/-- What the reads of a run get, one after another: the bytes of the input and then, without
end, what stands for its end. With `none` a read leaves its cell alone. -/
def stream (eof : EndOfInput) (input : List UInt8) (i : Nat) : Option UInt8 :=
  match input[i]? with
  | some b => some b
  | none =>
    match eof with
    | allOnes => some 0xFF
    | zero => some 0
    | unchanged => none

theorem stream_eq (eof : EndOfInput) (input : List UInt8) (i : Nat) :
    eof.stream input i = input[i]?.or eof.fill? := by
  unfold stream
  cases input[i]? with
  | some b => rfl
  | none => cases eof <;> rfl

theorem stream_drop (eof : EndOfInput) (input : List UInt8) (k i : Nat) :
    eof.stream (input.drop k) i = eof.stream input (k + i) := by
  simp [stream_eq]

end EndOfInput

/-- Two states in which a machine does the same, as far as it does not read. The first stands
behind more output: what it wrote is `before`, and then what the second wrote. -/
structure State.Beside (before : List UInt8) (s u : State) : Prop where
  ip : s.ip = u.ip
  steps : s.steps = u.steps
  tape : s.tape = u.tape
  loops : s.loops = u.loops
  output : s.output = before ++ u.output

namespace Scene

variable {policy : Policy} {eof eof' : EndOfInput} {op : Opcode} {w x : Scene}
variable {before : List UInt8}

/-- A read takes the first entry of the input stream. -/
theorem receive_eq (eof : EndOfInput) (w : Scene) :
    w.receive eof =
      { tape := match eof.stream w.unread 0 with
          | some b => w.tape.set b
          | none => w.tape
        unread := w.unread.drop 1
        output := w.output } := by
  obtain ⟨tape, unread, output⟩ := w
  cases unread with
  | cons b rest => rfl
  | nil => cases hfill : eof.fill? <;> simp [receive, EndOfInput.stream_eq, hfill, put]

theorem unread_obey (op : Opcode) (w : Scene) :
    (w.obey policy eof op).unread = if op = .read then w.unread.drop 1 else w.unread := by
  cases op with
  | read => rw [obey, receive_eq, if_pos rfl]
  | _ => rfl

/-- What an instruction does depends on the tape and on the bytes that it reads. -/
theorem obey_beside (tape : w.tape = x.tape) (output : w.output = before ++ x.output)
    (fed : op = .read → eof.stream w.unread 0 = eof'.stream x.unread 0) :
    (w.obey policy eof op).tape = (x.obey policy eof' op).tape ∧
      (w.obey policy eof op).output = before ++ (x.obey policy eof' op).output := by
  have hcell : w.cell = x.cell := by simp only [cell, tape]
  cases op with
  | incrPtr => exact ⟨congrArg Tape.advance tape, output⟩
  | decrPtr => exact ⟨congrArg policy.retreat tape, output⟩
  | incrVal => exact ⟨by simp only [obey, put, hcell, tape], output⟩
  | decrVal => exact ⟨by simp only [obey, put, hcell, tape], output⟩
  | write => exact ⟨tape, by simp only [obey, hcell, output, List.append_assoc]⟩
  | read =>
      simp only [obey, receive_eq, fed rfl, tape]
      exact ⟨trivial, output⟩
  | loopStart => exact ⟨tape, output⟩
  | loopEnd => exact ⟨tape, output⟩

end Scene

namespace Machine

variable {m : Machine} {eof : EndOfInput} {before : List UInt8}
variable {s t u v : State} {f : Fault}

def withEnd (m : Machine) (eof : EndOfInput) : Machine := { m with eof }

/-- How many reads the next step executes: one at a read, and none elsewhere. -/
def readsNext (m : Machine) (s : State) : Nat :=
  if m.program.opcode? s.ip = some .read then 1 else 0

/-- How many reads are executed in the first `n` steps. A read that fails is none. -/
def reads (m : Machine) : (n : Nat) → State → Nat
  | 0, _ => 0
  | n + 1, s =>
    match m.step s with
    | .ok t => m.readsNext s + m.reads n t
    | .error _ => 0

theorem finished_of_beside (beside : s.Beside before u) :
    (m.withEnd eof).finished u = m.finished s := by
  unfold finished
  rw [beside.ip]
  rfl

theorem readsNext_of_beside (beside : s.Beside before u) :
    (m.withEnd eof).readsNext u = m.readsNext s := by
  unfold readsNext
  rw [beside.ip]
  rfl

theorem Fails.beside (fails : m.Fails s f) (beside : s.Beside before u) :
    (m.withEnd eof).Fails u f := by
  have hip := beside.ip
  cases fails with
  | pastEnd hend => exact .pastEnd (hip ▸ hend)
  | outOfBounds op hop uses strict outside =>
      rw [hip, beside.tape]
      exact .outOfBounds op (hip ▸ hop) uses strict (beside.tape ▸ outside)
  | unterminated hop hcell hclose =>
      rw [hip]
      exact .unterminated (hip ▸ hop) (beside.tape ▸ hcell) (hip ▸ hclose)
  | unexpected hop hpop strict =>
      rw [hip]
      exact .unexpected (hip ▸ hop) (beside.loops ▸ hpop) strict

/-- Where one state makes a move, the state beside it steps to the same position, with the same
loops open. -/
theorem Move.beside (move : m.Move s t) (eof : EndOfInput) (beside : s.Beside before u) :
    ∃ v, (m.withEnd eof).step u = .ok v ∧ t.ip = v.ip ∧ t.steps = v.steps ∧
      t.loops = v.loops := by
  have hip := beside.ip
  have hsteps := congrArg (· + 1) beside.steps
  have hloops := beside.loops
  cases move with
  | inert hlt hop result =>
      rw [result]
      have hstep := step_inert (m := m.withEnd eof) (hip ▸ hlt) (hip ▸ hop)
      exact ⟨_, hstep, congrArg (· + 1) hip, hsteps, hloops⟩
  | simple op hop plain housed follows =>
      have housed' : op.usesCell = true → u.tape.cursor < u.tape.length := beside.tape ▸ housed
      obtain ⟨v, hv, follows'⟩ := step_simple (m := m.withEnd eof) (hip ▸ hop) plain housed'
      refine ⟨v, hv, ?_, ?_, ?_⟩
      · rw [follows.ip, follows'.ip, hip]
      · rw [follows.steps, follows'.steps, beside.steps]
      · rw [follows.loops, follows'.loops, hloops]
  | enter c hop hcell hc result =>
      have hstep := step_enter (m := m.withEnd eof) (hip ▸ hop) (beside.tape ▸ hcell) hc
      obtain ⟨_, hopen⟩ := s.openLoop_eq s.ip
      obtain ⟨_, hopen'⟩ := u.openLoop_eq u.ip
      rw [result, hopen]
      rw [hopen'] at hstep
      exact ⟨_, hstep, congrArg (· + 1) hip, hsteps, by rw [State.loops_next, hloops, hip]; rfl⟩
  | skip close hop hcell hclose result =>
      rw [result]
      have hstep := step_skip (m := m.withEnd eof) (hip ▸ hop) (beside.tape ▸ hcell)
        (hip ▸ hclose)
      exact ⟨_, hstep, rfl, hsteps, hloops⟩
  | back start rest hop hpop result =>
      rw [result]
      have hstep := step_back (m := m.withEnd eof) (hip ▸ hop) (hloops ▸ hpop)
      exact ⟨_, hstep, rfl, hsteps, rfl⟩
  | stray hop hpop lenient result =>
      rw [result]
      have hstep := step_stray (m := m.withEnd eof) (hip ▸ hop) (hloops ▸ hpop) lenient
      exact ⟨_, hstep, congrArg (· + 1) hip, hsteps, hloops⟩

theorem Move.unread (move : m.Move s t) : t.unread = s.unread.drop (m.readsNext s) := by
  have hscene := congrArg Scene.unread move.scene
  rw [State.scene_unread] at hscene
  rw [hscene, readsNext]
  cases hop : m.program.opcode? s.ip with
  | none => rfl
  | some op =>
      simp only [Scene.unread_obey, State.scene_unread, Option.some.injEq]
      split <;> rfl

/-- Two states beside each other make steps to such states again, or fail for the same reason.
If the step is a read, both have to get the same byte. -/
theorem step_beside (safe : m.Sheltered s) (beside : s.Beside before u)
    (fed : m.program.opcode? s.ip = some .read → (∃ t, m.step s = .ok t) →
      m.eof.stream s.unread 0 = eof.stream u.unread 0) :
    (∃ t v, m.step s = .ok t ∧ (m.withEnd eof).step u = .ok v ∧ t.Beside before v ∧
      t.unread = s.unread.drop (m.readsNext s) ∧
      v.unread = u.unread.drop (m.readsNext s)) ∨
    ∃ f, m.step s = .error ⟨f, s⟩ ∧ (m.withEnd eof).step u = .error ⟨f, u⟩ := by
  obtain ⟨t, hstep, move⟩ | ⟨f, hstep, fails⟩ := step_cases safe
  · obtain ⟨v, hv, hip, hsteps, hloops⟩ := move.beside eof beside
    have safe' : (m.withEnd eof).Sheltered u := by
      intro lenient
      rw [← beside.tape]
      exact safe lenient
    have move' := move_of_step safe' hv
    have hscene : t.tape = v.tape ∧ t.output = before ++ v.output := by
      have hscene := move.scene
      have hopcode : (m.withEnd eof).program.opcode? u.ip = m.program.opcode? s.ip :=
        congrArg m.program.opcode? beside.ip.symm
      have hscene' := move'.scene
      rw [hopcode] at hscene'
      change t.scene.tape = v.scene.tape ∧ t.scene.output = before ++ v.scene.output
      rw [hscene, hscene']
      cases hop : m.program.opcode? s.ip with
      | none => exact ⟨beside.tape, beside.output⟩
      | some op =>
          refine Scene.obey_beside beside.tape beside.output ?_
          rintro rfl
          exact fed hop ⟨t, hstep⟩
    exact .inl ⟨t, v, hstep, hv, ⟨hip, hsteps, hscene.1, hloops, hscene.2⟩, move.unread,
      readsNext_of_beside (m := m) beside ▸ move'.unread⟩
  · exact .inr ⟨f, hstep, step_of_fails (fails.beside beside)⟩

theorem reads_of_error {h : Halt} (hstep : m.step s = .error h) (n : Nat) : m.reads n s = 0 := by
  cases n with
  | zero => rfl
  | succ n => simp only [reads, hstep]

theorem reads_of_ok (hstep : m.step s = .ok t) (n : Nat) :
    m.reads (n + 1) s = m.readsNext s + m.reads n t := by
  simp only [reads, hstep]

/-- Two states beside each other stay so for any number of steps in which they read the same
bytes. They execute the same number of reads, which is what their inputs lose. -/
theorem proceed_beside (valid : m.Valid s) (beside : s.Beside before u) (n : Nat)
    (agree : ∀ i < m.reads n s, m.eof.stream s.unread i = eof.stream u.unread i) :
    (m.withEnd eof).reads n u = m.reads n s ∧
    (m.proceed n s).Alike
      (fun t v => t.Beside before v ∧ t.unread = s.unread.drop (m.reads n s) ∧
        v.unread = u.unread.drop (m.reads n s)) Eq
      ((m.withEnd eof).proceed n u) := by
  induction n generalizing s u with
  | zero =>
      refine ⟨rfl, ?_⟩
      simp only [proceed, finished_of_beside beside]
      split
      · exact .finished ⟨beside, rfl, rfl⟩
      · exact .running ⟨beside, rfl, rfl⟩
  | succ n ih =>
      cases hend : m.finished s with
      | true =>
          have hend' : (m.withEnd eof).finished u = true :=
            (finished_of_beside beside).trans hend
          rw [proceed_finished hend, proceed_finished hend',
            reads_of_error (step_of_finished hend), reads_of_error (step_of_finished hend')]
          exact ⟨rfl, .finished ⟨beside, rfl, rfl⟩⟩
      | false =>
          rw [proceed_succ hend, proceed_succ ((finished_of_beside beside).trans hend)]
          have fed : m.program.opcode? s.ip = some .read → (∃ t, m.step s = .ok t) →
              m.eof.stream s.unread 0 = eof.stream u.unread 0 := by
            rintro hop ⟨t, hstep⟩
            apply agree
            rw [reads_of_ok hstep, readsNext, if_pos hop]
            omega
          obtain ⟨t, v, ht, hv, after, hunread, hunread'⟩ | ⟨f, hs, hu⟩ :=
            step_beside valid.sheltered beside fed
          · have hreads := reads_of_ok ht n
            have later : ∀ i < m.reads n t, m.eof.stream t.unread i = eof.stream v.unread i := by
              intro i hi
              rw [hunread, hunread', EndOfInput.stream_drop, EndOfInput.stream_drop]
              exact agree _ (by omega)
            obtain ⟨hcount, progress⟩ := ih (valid.step ht) after later
            rw [reads_of_ok hv, hcount, readsNext_of_beside beside, hreads, ht, hv]
            refine ⟨rfl, ?_⟩
            simpa only [hunread, hunread', List.drop_drop] using progress
          · rw [reads_of_error hs, reads_of_error hu, hs, hu]
            exact ⟨rfl, .faulted ⟨beside, rfl, rfl⟩ rfl⟩

variable {n : Machine} {O : State → State → Prop} {F : Fault → Fault → Prop}

/-- Two machines whose steps keep their states related, or fail together, come equally far. -/
theorem proceed_alike (ends : ∀ s u, O s u → n.finished u = m.finished s)
    (step : ∀ s u, O s u → m.finished s = false →
      (∃ t v, m.step s = .ok t ∧ n.step u = .ok v ∧ O t v) ∨
      ∃ f g, m.step s = .error ⟨f, s⟩ ∧ n.step u = .error ⟨g, u⟩ ∧ F f g)
    (related : O s u) (k : Nat) : (m.proceed k s).Alike O F (n.proceed k u) := by
  have hends := ends s u related
  induction k generalizing s u with
  | zero =>
      simp only [proceed, hends]
      split
      · exact .finished related
      · exact .running related
  | succ k ih =>
      cases hend : m.finished s with
      | true =>
          rw [proceed_finished hend, proceed_finished (hends.trans hend)]
          exact .finished related
      | false =>
          rw [proceed_succ hend, proceed_succ (hends.trans hend)]
          obtain ⟨t, v, ht, hv, after⟩ | ⟨f, g, hs, hu, faults⟩ := step s u related hend
          · rw [ht, hv]
            exact ih after (ends t v after)
          · rw [hs, hu]
            exact .faulted related faults

/-! ### What a run makes of it -/

/-- Two runs that have come equally far end alike, or neither has ended. -/
theorem conclude_alike {p q : Progress} {limit : Option Int} (alike : p.Alike O F q)
    (flush : ∀ t v, O t v → O (t.emit .flushed) (v.emit .flushed))
    (spent : ∀ t v l, O t v → F (.stepLimit t.ip l) (.stepLimit v.ip l)) :
    Option.Rel (EndAlike O F) (conclude limit p) (conclude limit q) := by
  cases alike with
  | finished states => exact .some (.completed (flush _ _ states))
  | faulted states faults => exact .some (.failed (flush _ _ states) faults)
  | running states =>
      cases limit with
      | none => exact .none
      | some l => exact .some (.failed (flush _ _ states) (spent _ _ l states))

/-- Runs that come equally far within what they may do end alike, or neither ends. -/
theorem run?_alike {fuel : Nat} {limit : Option Int} (hsteps : s.steps = u.steps)
    (alike : (m.proceed (allowance fuel limit s) s).Alike O F
      (n.proceed (allowance fuel limit s) u))
    (flush : ∀ t v, O t v → O (t.emit .flushed) (v.emit .flushed))
    (spent : ∀ t v l, O t v → F (.stepLimit t.ip l) (.stepLimit v.ip l)) :
    Option.Rel (EndAlike O F) (m.run? fuel limit s) (n.run? fuel limit u) := by
  have hallowance : allowance fuel limit u = allowance fuel limit s := by
    simp only [allowance, hsteps]
  rw [run?_eq_conclude, run?_eq_conclude, hallowance]
  exact conclude_alike alike flush spent

/-- Of two runs that end alike if they end, each ends if the other does. -/
theorem exists_of_rel {a b : Option (Except Halt State)} (alike : Option.Rel (EndAlike O F) a b) :
    (∀ r, a = some r → ∃ r', b = some r' ∧ EndAlike O F r r') ∧
    ∀ r', b = some r' → ∃ r, a = some r ∧ EndAlike O F r r' := by
  cases alike with
  | none => exact ⟨nofun, nofun⟩
  | some same =>
      constructor
      · rintro r ⟨⟩
        exact ⟨_, rfl, same⟩
      · rintro r' ⟨⟩
        exact ⟨_, rfl, same⟩

/-- If one machine comes as far as another whenever it has made `k` steps more, their runs end
alike, or both go on forever. -/
theorem runAlike_of_proceed {k : Nat}
    (alike : ∀ j, (m.proceed (k + j) s).Alike O F (n.proceed j u))
    (flush : ∀ t v, O t v → O (t.emit .flushed) (v.emit .flushed))
    (spent : ∀ t v l, O t v → F (.stepLimit t.ip l) (.stepLimit v.ip l)) :
    m.RunAlike n O F s u := by
  have together : ∀ fuel, Option.Rel (EndAlike O F) (m.run? (k + fuel) none s)
      (n.run? fuel none u) := by
    intro fuel
    rw [run?_eq_conclude, run?_eq_conclude]
    exact conclude_alike (alike fuel) flush spent
  apply runAlike_of_ends
  · intro fuel r hrun
    obtain ⟨r', hrun', same⟩ := (exists_of_rel (together fuel)).1 r (run?_add hrun k)
    exact ⟨fuel, r', hrun', same⟩
  · intro fuel r' hrun'
    obtain ⟨r, hrun, -⟩ := (exists_of_rel (together fuel)).2 r' hrun'
    exact ⟨k + fuel, r, hrun⟩

theorem flush_beside (beside : s.Beside before u) :
    (s.emit .flushed).Beside before (u.emit .flushed) :=
  ⟨beside.ip, beside.steps, beside.tape, beside.loops, by simpa using beside.output⟩

end Machine

end NibTape

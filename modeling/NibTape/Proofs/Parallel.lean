import NibTape.Proofs.Failure

/-!
# Two machines side by side

That two programs, or two sizes of a tape, make no difference is shown by following two
executions side by side. What all such arguments share is said here once. The two machines
have one policy and one rule for the end of the input. Their tapes are related by any relation
that the instructions respect. Their positions correspond if two functions, one for each
program, assign them the same place.

From corresponding states, a common opcode takes both machines to corresponding states, or
fails in both for the same reason. Where one program makes steps that the other does not, one
machine waits for the other: to *track* it is to come, by any number of steps, to a state that
corresponds again. If each machine tracks the other, their runs end alike.
-/

namespace NibTape

namespace Fault

def ip? : Fault → Option Nat
  | outOfBounds ip _ _ | unexpectedLoopEnd ip | unterminatedLoop ip | stepLimit ip _ => some ip
  | pastEnd | missingCell | noOpenLoop => none

def relocate (ip : Nat) : Fault → Fault
  | outOfBounds _ cursor length => outOfBounds ip cursor length
  | unexpectedLoopEnd _ => unexpectedLoopEnd ip
  | unterminatedLoop _ => unterminatedLoop ip
  | stepLimit _ limit => stepLimit ip limit
  | f => f

theorem relocate_of_ip? {f : Fault} {ip : Nat} (h : f.ip? = some ip) : f.relocate ip = f := by
  cases f <;> cases h <;> rfl

end Fault

/-- A relation between tapes that all instructions respect. Either both cursors stand on a
cell, or neither does and an access to one tape fails as an access to the other. -/
structure Tape.Respected (policy : Policy) (T : Tape → Tape → Prop) : Prop where
  cell {t u : Tape} : T t u → t.value t.cursor = u.value u.cursor
  access {t u : Tape} : T t u → (t.cursor < t.length ∧ u.cursor < u.length) ∨
    (t.length ≤ t.cursor ∧ u.cursor = t.cursor ∧ u.length = t.length)
  advance {t u : Tape} : T t u → T t.advance u.advance
  retreat {t u : Tape} : T t u → T (policy.retreat t) (policy.retreat u)
  set {t u : Tape} (v : UInt8) : T t u → T (t.set v) (u.set v)

theorem Tape.respected_eq (policy : Policy) : Tape.Respected policy Eq where
  cell h := by rw [h]
  access {t u} h := by
    subst h
    rcases Nat.lt_or_ge t.cursor t.length with hlt | hge
    · exact .inl ⟨hlt, hlt⟩
    · exact .inr ⟨hge, rfl, rfl⟩
  advance h := by rw [h]
  retreat h := by rw [h]
  set v h := by rw [h]

/-- Two scenes that differ in their tapes at most, and there only as a relation allows. -/
structure Scene.Alike (T : Tape → Tape → Prop) (w x : Scene) : Prop where
  tape : T w.tape x.tape
  unread : w.unread = x.unread
  output : w.output = x.output

theorem Scene.Alike.eq {w x : Scene} (alike : w.Alike Eq x) : w = x := by
  cases w
  cases x
  obtain ⟨rfl, rfl, rfl⟩ := alike
  rfl

/-- Two states with alike scenes, whose positions have the same places. -/
structure State.Alike (T : Tape → Tape → Prop) (f g : Nat → Nat) (s u : State) : Prop where
  place : f s.ip = g u.ip
  loops : s.loops.toList.map f = u.loops.toList.map g
  scene : s.scene.Alike T u.scene

theorem State.Alike.depth_eq {T : Tape → Tape → Prop} {f g : Nat → Nat} {s u : State}
    (alike : s.Alike T f g u) : s.loops.depth = u.loops.depth := by
  have hlength := congrArg List.length alike.loops
  simp only [List.length_map, LoopStack.length_toList] at hlength
  exact hlength

/-- What instructions other than brackets do keeps scenes alike. -/
theorem Scene.Alike.obey {policy : Policy} {eof : EndOfInput} {T : Tape → Tape → Prop}
    {w x : Scene} (laws : Tape.Respected policy T) (alike : w.Alike T x) (op : Opcode) :
    (w.obey policy eof op).Alike T (x.obey policy eof op) := by
  have put : ∀ {w x : Scene} (v : UInt8), w.Alike T x → (w.put v).Alike T (x.put v) :=
    fun v h => ⟨laws.set v h.tape, h.unread, h.output⟩
  have hcell : w.cell = x.cell := laws.cell alike.tape
  cases op with
  | incrPtr => exact ⟨laws.advance alike.tape, alike.unread, alike.output⟩
  | decrPtr => exact ⟨laws.retreat alike.tape, alike.unread, alike.output⟩
  | incrVal =>
      simp only [Scene.obey, hcell]
      exact put _ alike
  | decrVal =>
      simp only [Scene.obey, hcell]
      exact put _ alike
  | write => exact ⟨alike.tape, alike.unread, by simp only [Scene.obey, hcell, alike.output]⟩
  | read =>
      have hunread := alike.unread
      simp only [Scene.obey, Scene.receive]
      cases hw : w.unread with
      | cons b rest =>
          rw [hw] at hunread
          simp only [← hunread]
          exact put b ⟨alike.tape, rfl, alike.output⟩
      | nil =>
          rw [hw] at hunread
          simp only [← hunread]
          cases eof.fill? with
          | some b => exact put b alike
          | none => exact alike
  | loopStart => exact alike
  | loopEnd => exact alike

namespace Machine

variable {m : Machine} {q : Program} {T : Tape → Tape → Prop} {f g : Nat → Nat}
variable {s t u : State} {op : Opcode}

def running (m : Machine) (q : Program) : Machine := { m with program := q }

/-- Two machines have made a step each, from `s` and from `u`: both have come to states that
correspond again, or both have failed, each at its own instruction. -/
inductive InStep (T : Tape → Tape → Prop) (f g : Nat → Nat) (s u : State) :
    Except Halt State → Except Halt State → Prop where
  | moved {t v : State} (alike : t.Alike T f g v) : InStep T f g s u (.ok t) (.ok v)
  | failed {fault : Fault} (here : fault.ip? = some s.ip) :
      InStep T f g s u (.error ⟨fault, s⟩) (.error ⟨fault.relocate u.ip, u⟩)

/-- An access that is denied to one machine is denied to the other. -/
theorem inStep_denied (hs : m.program.opcode? s.ip = some op)
    (hu : q.opcode? u.ip = some op) (uses : op.usesCell = true) (strict : m.policy = .strict)
    (outside : s.tape.length ≤ s.tape.cursor) (hcursor : u.tape.cursor = s.tape.cursor)
    (hlength : u.tape.length = s.tape.length) :
    InStep T f g s u (m.step s) ((m.running q).step u) := by
  have hdenied : m.denied? op s = some (.outOfBounds s.ip s.tape.cursor s.tape.length) :=
    denied?_eq_some_iff.mpr ⟨uses, strict, outside, rfl⟩
  have hdenied' : (m.running q).denied? op u =
      some (.outOfBounds u.ip s.tape.cursor s.tape.length) :=
    denied?_eq_some_iff.mpr ⟨uses, strict, by omega, by rw [hcursor, hlength]⟩
  rw [step_denied hs hdenied, step_denied (m := m.running q) hu hdenied']
  exact .failed rfl

theorem inStep_plain (laws : Tape.Respected m.policy T) (alike : s.Alike T f g u)
    (hs : m.program.opcode? s.ip = some op) (hu : q.opcode? u.ip = some op)
    (plain : op.isBracket = false)
    (housed : op.usesCell = true →
      s.tape.cursor < s.tape.length ∧ u.tape.cursor < u.tape.length)
    (next : f (s.ip + 1) = g (u.ip + 1)) :
    InStep T f g s u (m.step s) ((m.running q).step u) := by
  obtain ⟨t, ht, follows⟩ := step_simple hs plain fun uses => (housed uses).1
  obtain ⟨v, hv, follows'⟩ := step_simple (m := m.running q) hu plain fun uses => (housed uses).2
  rw [ht, hv]
  refine .moved ⟨?_, ?_, ?_⟩
  · rw [follows.ip, follows'.ip]
    exact next
  · rw [follows.loops, follows'.loops]
    exact alike.loops
  · rw [follows.scene, follows'.scene]
    exact alike.scene.obey laws op

/-- Both machines enter the loop, both skip it to loop ends that have the same place, or
neither has one to skip to. -/
theorem inStep_loopStart (laws : Tape.Respected m.policy T) (alike : s.Alike T f g u)
    (hs : m.program.opcode? s.ip = some .loopStart) (hu : q.opcode? u.ip = some .loopStart)
    (housed : s.tape.cursor < s.tape.length ∧ u.tape.cursor < u.tape.length)
    (next : f (s.ip + 1) = g (u.ip + 1))
    (close : (m.program.loopEnd? s.ip).map (fun j => f (j + 1)) =
      (q.loopEnd? u.ip).map fun j => g (j + 1)) :
    InStep T f g s u (m.step s) ((m.running q).step u) := by
  have hcell := Tape.current?_of_lt housed.1
  have hcell' := Tape.current?_of_lt housed.2
  have hvalue : s.tape.value s.tape.cursor = u.tape.value u.tape.cursor :=
    laws.cell alike.scene.tape
  rw [← hvalue] at hcell'
  by_cases hv : s.tape.value s.tape.cursor = 0
  · rw [hv] at hcell hcell'
    cases hclose : m.program.loopEnd? s.ip with
    | none =>
        rw [hclose, Option.map_none, eq_comm, Option.map_eq_none_iff] at close
        rw [step_unterminated hs hcell hclose,
          step_unterminated (m := m.running q) hu hcell' close]
        exact .failed rfl
    | some j =>
        rw [hclose, Option.map_some, eq_comm, Option.map_eq_some_iff] at close
        obtain ⟨k, hk, hplace⟩ := close
        rw [step_skip hs hcell hclose, step_skip (m := m.running q) hu hcell' hk]
        exact .moved ⟨hplace.symm, alike.loops, alike.scene⟩
  · rw [step_enter hs hcell hv, step_enter (m := m.running q) hu hcell' hv]
    refine .moved ⟨?_, ?_, ?_⟩
    · simpa using next
    · simp [alike.loops, alike.place]
    · simpa using alike.scene

/-- Both machines go back to loop starts that have the same place, or neither has an open
loop to go back to. -/
theorem inStep_loopEnd (alike : s.Alike T f g u)
    (hs : m.program.opcode? s.ip = some .loopEnd) (hu : q.opcode? u.ip = some .loopEnd)
    (next : f (s.ip + 1) = g (u.ip + 1)) :
    InStep T f g s u (m.step s) ((m.running q).step u) := by
  have hloops := alike.loops
  cases hpop : s.loops.pop? with
  | none =>
      have hpop' : u.loops.pop? = none := by
        rw [(LoopStack.pop?_eq_none_iff _).mp hpop, List.map_nil, eq_comm,
          List.map_eq_nil_iff] at hloops
        exact (LoopStack.pop?_eq_none_iff _).mpr hloops
      cases hp : m.policy with
      | permissive =>
          rw [step_stray hs hpop hp, step_stray (m := m.running q) hu hpop' hp]
          exact .moved ⟨next, hloops, alike.scene⟩
      | strict =>
          rw [step_unexpected hs hpop hp, step_unexpected (m := m.running q) hu hpop' hp]
          exact .failed rfl
  | some popped =>
      obtain ⟨start, rest⟩ := popped
      rw [(LoopStack.pop?_eq_some hpop).1, List.map_append] at hloops
      cases hpop' : u.loops.pop? with
      | none =>
          rw [(LoopStack.pop?_eq_none_iff _).mp hpop'] at hloops
          simp at hloops
      | some popped' =>
          obtain ⟨start', rest'⟩ := popped'
          rw [(LoopStack.pop?_eq_some hpop').1, List.map_append] at hloops
          obtain ⟨hrest, hstart⟩ := List.append_inj' hloops rfl
          simp only [List.map_cons, List.map_nil, List.cons.injEq, and_true] at hstart
          rw [step_back hs hpop, step_back (m := m.running q) hu hpop']
          exact .moved ⟨hstart, hrest, alike.scene⟩

/-- A common opcode keeps two machines in step. -/
theorem inStep_of_opcode (laws : Tape.Respected m.policy T) (safe : m.Sheltered s)
    (alike : s.Alike T f g u) (hs : m.program.opcode? s.ip = some op)
    (hu : q.opcode? u.ip = some op) (next : f (s.ip + 1) = g (u.ip + 1))
    (close : op = .loopStart → (m.program.loopEnd? s.ip).map (fun j => f (j + 1)) =
      (q.loopEnd? u.ip).map fun j => g (j + 1)) :
    InStep T f g s u (m.step s) ((m.running q).step u) := by
  by_cases housed : op.usesCell = true →
      s.tape.cursor < s.tape.length ∧ u.tape.cursor < u.tape.length
  · cases plain : op.isBracket with
    | false => exact inStep_plain laws alike hs hu plain housed next
    | true =>
        cases op with
        | loopStart => exact inStep_loopStart laws alike hs hu (housed rfl) next (close rfl)
        | loopEnd => exact inStep_loopEnd alike hs hu next
        | _ => cases plain
  · obtain ⟨uses, hout⟩ := Classical.not_imp.mp housed
    obtain hin | ⟨outside, hcursor, hlength⟩ := laws.access alike.scene.tape
    · exact (hout hin).elim
    · -- without checks the cursor would stand on a cell
      have strict : m.policy = .strict := by
        cases hp : m.policy with
        | strict => rfl
        | permissive => exact (Nat.not_lt_of_le outside (safe hp)).elim
      exact inStep_denied hs hu uses strict outside hcursor hlength

/-! ### Runs -/

variable {n : Machine} {R Q O : State → State → Prop} {F G : Fault → Fault → Prop}
variable {fuel k : Nat} {r : Except Halt State}

/-- `n` tracks `m`: whatever `m` does from a state that corresponds to one of `n`, a number of
steps of `n` answers. -/
structure Tracks (n m : Machine) (R : State → State → Prop) (F : Fault → Fault → Prop) :
    Prop where
  step {s t u : State} : m.Valid s → R s u → m.step s = .ok t → ∃ k v, n.Path u k v ∧ R t v
  finish {s u : State} : m.Valid s → R s u → m.finished s = true →
    ∃ k v, n.Path u k v ∧ n.finished v = true ∧ R s v
  fail {s u : State} {f : Fault} : m.Valid s → R s u → m.finished s = false →
    m.step s = .error ⟨f, s⟩ →
    ∃ k v f', n.Path u k v ∧ n.finished v = false ∧ n.step v = .error ⟨f', v⟩ ∧ F f f' ∧ R s v

/-- Two runs that ended both completed or both failed, in states and with faults that are
related. -/
inductive EndAlike (O : State → State → Prop) (F : Fault → Fault → Prop) :
    Except Halt State → Except Halt State → Prop where
  | completed {s u : State} (states : O s u) : EndAlike O F (.ok s) (.ok u)
  | failed {f f' : Fault} {s u : State} (states : O s u) (faults : F f f') :
      EndAlike O F (.error ⟨f, s⟩) (.error ⟨f', u⟩)

/-- Runs without a budget end alike, or both go on forever. -/
def RunAlike (m n : Machine) (O : State → State → Prop) (F : Fault → Fault → Prop)
    (s u : State) : Prop :=
  (∃ fuel fuel' r r', m.run? fuel none s = some r ∧ n.run? fuel' none u = some r' ∧
    EndAlike O F r r') ∨
  ((∀ fuel, m.run? fuel none s = none) ∧ ∀ fuel, n.run? fuel none u = none)

/-- What is known of the faults of runs without a budget adds to what two of them have in
common. -/
theorem RunAlike.imp_faults (alike : m.RunAlike n O F s u)
    (faults : ∀ fuel f t g, m.run? fuel none s = some (.error ⟨f, t⟩) → F f g → G f g) :
    m.RunAlike n O G s u := by
  obtain ⟨fuel, fuel', r, r', hrun, hrun', same⟩ | diverge := alike
  · refine .inl ⟨fuel, fuel', r, r', hrun, hrun', ?_⟩
    cases same with
    | completed states => exact .completed states
    | failed states related => exact .failed states (faults fuel _ _ _ hrun related)
  · exact .inr diverge

/-- Two runs are alike if each of them ends whenever the other does, and then alike. -/
theorem runAlike_of_ends
    (there : ∀ fuel r, m.run? fuel none s = some r →
      ∃ fuel' r', n.run? fuel' none u = some r' ∧ EndAlike O F r r')
    (back : ∀ fuel r, n.run? fuel none u = some r → ∃ fuel' r', m.run? fuel' none s = some r') :
    m.RunAlike n O F s u := by
  by_cases ends : ∃ fuel r, m.run? fuel none s = some r
  · obtain ⟨fuel, r, hrun⟩ := ends
    obtain ⟨fuel', r', hrun', alike⟩ := there fuel r hrun
    exact .inl ⟨fuel, fuel', r, r', hrun, hrun', alike⟩
  · refine .inr ⟨?_, ?_⟩
    · intro fuel
      rw [Option.eq_none_iff_forall_ne_some]
      intro r hrun
      exact ends ⟨fuel, r, hrun⟩
    · intro fuel
      rw [Option.eq_none_iff_forall_ne_some]
      intro r hrun
      exact ends (back fuel r hrun)

namespace Tracks

theorem path (tracks : n.Tracks m R F) (valid : m.Valid s) (related : R s u)
    (hp : m.Path s k t) : ∃ j v, n.Path u j v ∧ R t v := by
  induction hp with
  | start => exact ⟨0, u, .start, related⟩
  | next before hstep ih =>
      obtain ⟨j, v, hv, between⟩ := ih
      obtain ⟨i, x, hx, after⟩ := tracks.step (before.valid valid) between hstep
      exact ⟨j + i, x, hv.append hx, after⟩

/-- If a run ends, so does the run of a machine that tracks it. -/
theorem run (tracks : n.Tracks m R F) (valid : m.Valid s) (related : R s u)
    (shows : ∀ {s u : State}, R s u → O (s.emit .flushed) (u.emit .flushed))
    (hrun : m.run? fuel none s = some r) :
    ∃ fuel' r', n.run? fuel' none u = some r' ∧ EndAlike O F r r' := by
  obtain ⟨k, t, hp, hend⟩ := run_cases valid hrun
  obtain ⟨j, v, hv, between⟩ := tracks.path valid related hp
  have hvalid := hp.valid valid
  obtain ⟨hfinished, rfl⟩ | ⟨f, ht, fails, rfl⟩ | ⟨l, hl, -, -⟩ := hend
  · obtain ⟨i, x, hx, hx', after⟩ := tracks.finish hvalid between hfinished
    obtain ⟨fuel', hrun'⟩ := runToEnd?_eq_ok_iff.mpr ⟨j + i, x, hv.append hx, hx', rfl⟩
    exact ⟨fuel', _, hrun', .completed (shows after)⟩
  · obtain ⟨i, x, f', hx, hx', hfault, faults, after⟩ :=
      tracks.fail hvalid between ht (step_of_fails fails)
    obtain ⟨fuel', hrun'⟩ :=
      runToEnd?_eq_error_iff.mpr ⟨j + i, x, _, hv.append hx, hx', hfault, rfl⟩
    exact ⟨fuel', _, hrun', .failed (shows after) faults⟩
  · cases hl

/-- Machines that track each other run alike: if one of them ends, so does the other. -/
theorem runAlike (there : n.Tracks m R F) (back : m.Tracks n Q G) (valid : m.Valid s)
    (valid' : n.Valid u) (related : R s u) (related' : Q u s)
    (shows : ∀ {s u : State}, R s u → O (s.emit .flushed) (u.emit .flushed)) :
    m.RunAlike n O F s u := by
  apply runAlike_of_ends
  · intro fuel r hrun
    exact there.run valid related shows hrun
  · intro fuel r hrun
    obtain ⟨fuel', r', hrun', -⟩ :=
      back.run (O := fun _ _ => True) valid' related' (fun _ => trivial) hrun
    exact ⟨fuel', r', hrun'⟩

end Tracks

end Machine

end NibTape

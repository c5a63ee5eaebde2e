import NibTape.Proofs.Lockstep
import NibTape.Proofs.Nesting

/-!
# Programs one after another

A program with another one behind it does what it does alone, as long as it fails nowhere: the
loop ends that its scans find are the same in the longer text. When it has come to its end with
no loop open, the second program runs as if it had been started alone on the tape and the input
that the first one left. Only its instructions stand further back, by the length of the first
program, and with them the loops that it opens and the positions that its faults name.

The second part is shown in two stages, each with a simulation that is there already. The first
takes the code back to the beginning of a program and keeps what was written so far; the second
forgets what was written.
-/

namespace NibTape

namespace Program

variable {p q r : Program} {i i' d j : Nat}

theorem opcode?_append_left (q : Program) (h : i < p.size) :
    opcode? (p ++ q) i = p.opcode? i := by
  simp only [opcode?, Array.getElem?_append_left h]

theorem opcode?_append_right (p q : Program) (i : Nat) :
    opcode? (p ++ q) (p.size + i) = q.opcode? i := by
  simp [opcode?, Array.getElem?_append_right]

/-- Where one program has the instructions of another, a scan finds in it what it finds in the
other. -/
theorem scan?_of_agree (agree : ∀ n, i + n < p.size → r.opcode? (i' + n) = p.opcode? (i + n))
    (h : p.scan? i d = some j) : ∃ n, j = i + n ∧ r.scan? i' d = some (i' + n) := by
  have next : ∀ {i i' d}, (∀ n, i + n < p.size → r.opcode? (i' + n) = p.opcode? (i + n)) →
      (∀ i', (∀ n, i + 1 + n < p.size → r.opcode? (i' + n) = p.opcode? (i + 1 + n)) →
        ∃ n, j = i + 1 + n ∧ r.scan? i' d = some (i' + n)) →
      ∃ n, j = i + n ∧ r.scan? (i' + 1) d = some (i' + n) := by
    intro i i' d agree ih
    obtain ⟨n, hj, hscan⟩ := ih (i' + 1) fun n hn => by
      rw [Nat.add_assoc, Nat.add_assoc]
      exact agree (1 + n) (by omega)
    exact ⟨1 + n, by omega, by rw [hscan, Nat.add_assoc]⟩
  induction i, d using scan_induction (p := p) generalizing i' with
  | past i d hsize =>
      rw [scan?_of_size_le hsize] at h
      cases h
  | start i d hs ih =>
      have hop : r.opcode? i' = p.opcode? i := agree 0 (lt_size_of_opcode? hs)
      rw [scan?_of_start hs] at h
      rw [scan?_of_start (hop.trans hs)]
      exact next agree fun i' agree => ih agree h
  | found i he =>
      have hop : r.opcode? i' = p.opcode? i := agree 0 (lt_size_of_opcode? he)
      rw [scan?_of_end_zero he] at h
      cases h
      exact ⟨0, rfl, scan?_of_end_zero (hop.trans he)⟩
  | inner i d he ih =>
      have hop : r.opcode? i' = p.opcode? i := agree 0 (lt_size_of_opcode? he)
      rw [scan?_of_end_succ he] at h
      rw [scan?_of_end_succ (hop.trans he)]
      exact next agree fun i' agree => ih agree h
  | other i d hlt hs he ih =>
      have hop : r.opcode? i' = p.opcode? i := agree 0 hlt
      rw [scan?_of_other hs he] at h
      rw [scan?_of_other (hop ▸ hs) (hop ▸ he)]
      exact next agree fun i' agree => ih agree h

/-- A loop that ends in a program ends there also with more code behind it. -/
theorem loopEnd?_append_left (q : Program) (h : p.loopEnd? i = some j) :
    loopEnd? (p ++ q) i = some j := by
  have agree : ∀ n, i + 1 + n < p.size → opcode? (p ++ q) (i + 1 + n) = p.opcode? (i + 1 + n) :=
    fun n hn => opcode?_append_left q hn
  obtain ⟨n, rfl, hscan⟩ := scan?_of_agree agree h
  exact hscan

theorem loopEnd?_append_right (p q : Program) (i : Nat) :
    loopEnd? (p ++ q) (p.size + i) = (q.loopEnd? i).map (p.size + ·) := by
  have agree : ∀ n, opcode? (p ++ q) (p.size + i + 1 + n) = q.opcode? (i + 1 + n) := by
    intro n
    rw [Nat.add_assoc, Nat.add_assoc, opcode?_append_right, Nat.add_assoc]
  cases hclose : q.loopEnd? i with
  | some j =>
      obtain ⟨n, rfl, hscan⟩ := scan?_of_agree (fun n _ => agree n) hclose
      rw [loopEnd?_eq_scan?, hscan, Option.map_some, Nat.add_assoc, Nat.add_assoc, Nat.add_assoc]
  | none =>
      rw [Option.map_none, Option.eq_none_iff_forall_ne_some]
      intro j hclose'
      -- what the scan found behind the first program, it would find in the second alone
      obtain ⟨n, -, hscan⟩ := scan?_of_agree (fun n _ => (agree n).symm) hclose'
      cases hclose.symm.trans hscan

end Program

def Fault.shift (offset : Nat) (f : Fault) : Fault :=
  match f.ip? with
  | some ip => f.relocate (offset + ip)
  | none => f

theorem Fault.eq_shift {f : Fault} {offset i : Nat} (h : f.ip? = some (offset + i)) :
    f = (f.relocate i).shift offset := by
  cases f <;> cases h <;> rfl

namespace State

/-- The state in which another program starts on the tape and the input that a run has left. -/
def handOver (s : State) (cells : Nat) : State :=
  { State.initial cells s.unread with tape := s.tape }

/-- `s` is as far from the state `before` as `u` is from the start of a program whose code
stands further back in the program of `s`. -/
structure Continues (before : State) (offset : Nat) (s u : State) : Prop where
  ip : s.ip = offset + u.ip
  steps : s.steps = before.steps + u.steps
  tape : s.tape = u.tape
  loops : s.loops.toList = u.loops.toList.map (offset + ·)
  unread : s.unread = u.unread
  output : s.output = before.output ++ u.output

/-- Two states that differ in where the code stands and in the steps made before. -/
structure Shifted (offset earlier : Nat) (s u : State) : Prop where
  alike : s.Alike Eq id (offset + ·) u
  steps : s.steps = earlier + u.steps

end State

namespace Machine

variable {m : Machine} {p q : Program} {op : Opcode} {s t u : State}
variable {n cells earlier : Nat}

/-! ### The first program -/

theorem perform_running (hop : op ≠ .loopStart) (q : Program) (s : State) :
    (m.running q).perform op s = m.perform op s := by
  cases op with
  | loopStart => exact (hop rfl).elim
  | _ => rfl

/-- Of the program, a step at another instruction than a loop start sees this instruction. -/
theorem step_running (hlt : s.ip < m.program.size) (hlt' : s.ip < q.size)
    (here : q.opcode? s.ip = m.program.opcode? s.ip)
    (hstart : m.program.opcode? s.ip ≠ some .loopStart) :
    (m.running q).step s = m.step s := by
  cases hop : m.program.opcode? s.ip with
  | none => rw [step_inert hlt hop, step_inert (m := m.running q) hlt' (here.trans hop)]
  | some op =>
      have hop' : (m.running q).program.opcode? s.ip = some op := here.trans hop
      cases hdenied : m.denied? op s with
      | some f => rw [step_denied hop hdenied, step_denied hop' hdenied]
      | none =>
          have hne : op ≠ .loopStart := by
            rintro rfl
            exact hstart hop
          rw [step_allowed hop hdenied, step_allowed hop' hdenied, perform_running hne]

/-- A step that succeeds is the same step with more code behind the program. -/
theorem step_append (safe : m.Sheltered s) (q : Program) (hstep : m.step s = .ok t) :
    (m.running (m.program ++ q)).step s = .ok t := by
  have hlt := unfinished_iff.mp (unfinished_of_step hstep)
  have here := Program.opcode?_append_left q hlt
  by_cases hop : m.program.opcode? s.ip = some .loopStart
  · have hop' := here.trans hop
    cases move_of_step safe hstep with
    | enter v _ hcell hv result =>
        rw [result]
        exact step_enter (m := m.running _) hop' hcell hv
    | skip close _ hcell hclose result =>
        rw [result]
        exact step_skip (m := m.running _) hop' hcell (Program.loopEnd?_append_left q hclose)
    | inert _ hother _ => cases hop.symm.trans hother
    | simple op hother plain _ _ =>
        cases hop.symm.trans hother
        cases plain
    | back _ _ hother _ _ => cases hop.symm.trans hother
    | stray hother _ _ _ => cases hop.symm.trans hother
  · have hlt' : s.ip < (m.program ++ q).size := by
      rw [Array.size_append]
      omega
    rw [step_running hlt hlt' here hop]
    exact hstep

theorem Path.extend (hp : m.Path s n t) (valid : m.Valid s) (q : Program) :
    (m.running (m.program ++ q)).Path s n t := by
  induction hp with
  | start => exact .start
  | next before hstep ih =>
      exact ih.next (step_append (before.valid valid).sheltered q hstep)

/-- No step goes further than to the end of the program. -/
theorem Move.ip_le_size (move : m.Move s t) (nested : m.Nested s) : t.ip ≤ m.program.size := by
  cases move with
  | inert hlt _ result => rw [result]; exact hlt
  | simple op hop _ _ follows => rw [follows.ip]; exact Program.lt_size_of_opcode? hop
  | enter _ hop _ _ result =>
      rw [result, State.ip_next, State.ip_openLoop]
      exact Program.lt_size_of_opcode? hop
  | skip close _ _ hclose result =>
      rw [result]
      exact Program.lt_size_of_opcode? (Program.scan?_eq_some hclose).2
  | back start rest hop hpop result =>
      have hlt := Program.lt_of_mem_openLoops (nested.mem_openLoops hpop)
      rw [result]
      exact Nat.le_of_lt (Nat.lt_trans hlt (Program.lt_size_of_opcode? hop))
  | stray hop _ _ result => rw [result]; exact Program.lt_size_of_opcode? hop

theorem Path.ip_le_size {input : List UInt8} (hp : m.Path (State.initial cells input) n s)
    (pos : 0 < cells) : s.ip ≤ m.program.size := by
  cases hp with
  | start => exact Nat.zero_le _
  | next before hstep =>
      obtain ⟨nested, move⟩ := before.nested_move pos hstep
      exact move.ip_le_size nested

theorem Path.ip_eq_size {input : List UInt8} (hp : m.Path (State.initial cells input) n s)
    (pos : 0 < cells) (hend : m.finished s = true) : s.ip = m.program.size :=
  Nat.le_antisymm (hp.ip_le_size pos) (finished_iff.mp hend)

/-! ### The second program -/

/-- An instruction does the same wherever its code stands. -/
theorem step_shifted (hm : m.program = p ++ q) (safe : m.Sheltered s)
    (shifted : s.Shifted p.size earlier u) (hs : m.finished s = false) :
    (∃ t v, m.step s = .ok t ∧ (m.running q).step u = .ok v ∧ t.Shifted p.size earlier v) ∨
    ∃ f g, m.step s = .error ⟨f, s⟩ ∧ (m.running q).step u = .error ⟨g, u⟩ ∧
      f = g.shift p.size := by
  have hip : s.ip = p.size + u.ip := shifted.alike.place
  have hlt := unfinished_iff.mp hs
  have hopcode : m.program.opcode? s.ip = q.opcode? u.ip := by
    rw [hm, hip, Program.opcode?_append_right]
  have safe' : (m.running q).Sheltered u := by
    intro lenient
    have htape : s.tape = u.tape := shifted.alike.scene.tape
    rw [← htape]
    exact safe lenient
  have hnext : id (s.ip + 1) = p.size + (u.ip + 1) := congrArg (· + 1) hip
  have inStep : InStep Eq id (p.size + ·) s u (m.step s) ((m.running q).step u) := by
    cases hop : q.opcode? u.ip with
    | none =>
        have hlt' : u.ip < q.size := by
          rw [hm, Array.size_append] at hlt
          omega
        rw [step_inert hlt (hopcode.trans hop), step_inert (m := m.running q) hlt' hop]
        exact .moved ⟨hnext, shifted.alike.loops, shifted.alike.scene⟩
    | some op =>
        refine inStep_of_opcode (Tape.respected_eq m.policy) safe shifted.alike
          (hopcode.trans hop) hop hnext fun _ => ?_
        rw [hm, hip, Program.loopEnd?_append_right, Option.map_map]
        rfl
  generalize ht : m.step s = rs at inStep
  generalize hv : (m.running q).step u = ru at inStep
  cases inStep with
  | moved alike =>
      have hsteps := (move_of_step safe ht).steps
      have hsteps' := (move_of_step safe' hv).steps
      exact .inl ⟨_, _, rfl, rfl, alike, by rw [hsteps, hsteps', shifted.steps, Nat.add_assoc]⟩
  | failed here => exact .inr ⟨_, _, rfl, rfl, Fault.eq_shift (hip ▸ here)⟩

theorem proceed_shifted (hm : m.program = p ++ q) (valid : m.Valid s)
    (shifted : s.Shifted p.size earlier u) (n : Nat) :
    (m.proceed n s).Alike (fun t v => m.Valid t ∧ t.Shifted p.size earlier v)
      (fun f g => f = g.shift p.size) ((m.running q).proceed n u) := by
  refine proceed_alike ?_ ?_ ⟨valid, shifted⟩ n
  · rintro t v ⟨-, shifted⟩
    have hip : t.ip = p.size + v.ip := shifted.alike.place
    rw [Bool.eq_iff_iff, finished_iff, finished_iff, hm, Array.size_append, hip]
    exact (Nat.add_le_add_iff_left).symm
  · rintro t v ⟨valid, shifted⟩ ht
    obtain ⟨t', v', hstep, hstep', after⟩ | failed :=
      step_shifted hm valid.sheltered shifted ht
    · exact .inl ⟨t', v', hstep, hstep', valid.step hstep, after⟩
    · exact .inr failed

/-- At the beginning of the second program, with no loop open, the machine goes on as one that
is started there. -/
theorem proceed_handOver (hm : m.program = p ++ q) (valid : m.Valid s) (hip : s.ip = p.size)
    (hloops : s.loops.toList = []) (cells n : Nat) :
    (m.proceed n s).Alike (s.Continues p.size) (fun f g => f = g.shift p.size)
      ((m.running q).proceed n (s.handOver cells)) := by
  -- a start that remembers what was written
  let u : State := { s.handOver cells with eventsRev := s.eventsRev }
  have shifted : s.Shifted p.size s.steps u := ⟨⟨hip, by simp [hloops]; rfl, rfl, rfl, rfl⟩, rfl⟩
  have beside : u.Beside s.output (s.handOver cells) :=
    ⟨rfl, rfl, rfl, rfl, (List.append_nil _).symm⟩
  have hu : (m.running q).Valid u := ⟨valid.tape, valid.sheltered⟩
  have there := proceed_shifted hm valid shifted n
  have back := (proceed_beside hu beside n fun _ _ => rfl).2
  apply (there.trans back).imp
  rintro t v ⟨w, ⟨-, moved⟩, forgot, hunread, hunread'⟩
  refine ⟨?_, ?_, ?_, ?_, ?_, ?_⟩
  · rw [← forgot.ip]
    exact moved.alike.place
  · rw [← forgot.steps]
    exact moved.steps
  · rw [← forgot.tape]
    exact moved.alike.scene.tape
  · rw [← forgot.loops]
    simpa using moved.alike.loops
  · exact (moved.alike.scene.unread.trans hunread).trans hunread'.symm
  · rw [← forgot.output]
    exact moved.alike.scene.output

/-- Whatever a program comes to without a fault, it comes to in the same way with a second
program behind it. If it completes with no loop open, the two go on as the second program alone
does from the tape and the input that the first has left: step by step, and to the same end or
to none. The positions of its instructions, of its open loops and in its faults are greater by
the length of the first program. -/
theorem programs_run_in_sequence {size : Int} {cells : Nat}
    (valid : StepSize.ofInt size = .ok cells) (p q : Program) (policy : Policy)
    (eof : EndOfInput) (input : List UInt8) :
    let first : Machine := { program := p, policy, eof }
    let second : Machine := { program := q, policy, eof }
    let both : Machine := { program := p ++ q, policy, eof }
    let start := State.initial cells input
    (∀ n s, first.Path start n s → both.Path start n s) ∧
    ∀ k s, first.Path start k s → first.finished s = true → s.loops.depth = 0 →
      s.ip = p.size ∧ s.steps = k ∧
      (∀ n, (both.proceed (k + n) start).Alike (s.Continues p.size)
        (fun f g => f = g.shift p.size) (second.proceed n (s.handOver cells))) ∧
      both.RunAlike second (s.Continues p.size) (fun f g => f = g.shift p.size) start
        (s.handOver cells) := by
  intro first second both start
  have pos : 0 < cells := (StepSize.ofInt_eq_ok_iff.mp valid).2.1
  have hstart : first.Valid start := valid_initial first pos input
  have carried : ∀ n s, first.Path start n s → both.Path start n s :=
    fun n s hp => hp.extend hstart q
  refine ⟨carried, ?_⟩
  intro k s hp hend hdepth
  have hip : s.ip = p.size := hp.ip_eq_size pos hend
  have hsteps : s.steps = k := (hp.steps hstart).trans (Nat.zero_add k)
  have hloops : s.loops.toList = [] := by
    rw [← LoopStack.length_toList] at hdepth
    exact List.length_eq_zero_iff.mp hdepth
  have hboth : both.Valid s := (carried k s hp).valid (valid_initial both pos input)
  have goesOn : ∀ n, (both.proceed (k + n) start).Alike (s.Continues p.size)
      (fun f g => f = g.shift p.size) (second.proceed n (s.handOver cells)) := by
    intro n
    rw [proceed_add (carried k s hp)]
    exact proceed_handOver (m := both) rfl hboth hip hloops cells n
  refine ⟨hip, hsteps, goesOn, runAlike_of_proceed goesOn ?_ ?_⟩
  · rintro t v ⟨hip, hsteps, htape, hloops, hunread, houtput⟩
    exact ⟨hip, hsteps, htape, hloops, hunread, by simpa using houtput⟩
  · intro t v l continues
    rw [continues.ip]
    rfl

/-- The program `]+.` passes over its stray loop end, and `[-.][` behind it fails as it does on
a cell that holds 1, three positions further back and with one more byte written. -/
theorem unclosed_loop_fails_in_sequence :
    let first : Machine := { program := #[1, 2, 0], policy := .permissive, eof := .zero }
    let second : Machine := { program := #[4, 5, 0, 1, 4], policy := .permissive, eof := .zero }
    let both : Machine :=
      { program := #[1, 2, 0, 4, 5, 0, 1, 4], policy := .permissive, eof := .zero }
    let start := State.initial 1 []
    ∃ s t u, first.Path start 3 s ∧ both.Path start 3 s ∧
      both.proceed 9 start = .faulted ⟨.unterminatedLoop 7, t⟩ ∧
      second.proceed 6 (s.handOver 1) = .faulted ⟨.unterminatedLoop 4, u⟩ ∧
      t.output = [1, 0] ∧ s.Continues 3 t u := by
  intro first second both start
  have valid : StepSize.ofInt 1 = .ok 1 := rfl
  obtain ⟨carried, goesOn⟩ :=
    programs_run_in_sequence valid first.program second.program .permissive .zero []
  obtain ⟨s, hp, hend, hdepth, u, hu⟩ : ∃ s, first.Path (State.initial 1 []) 3 s ∧
      first.finished s = true ∧ s.loops.depth = 0 ∧
      ∃ u, second.proceed 6 (s.handOver 1) = .faulted ⟨.unterminatedLoop 4, u⟩ :=
    ⟨_, .next (.next (.next .start rfl) rfl) rfl, rfl, rfl, _, rfl⟩
  obtain ⟨t, ht, houtput⟩ : ∃ t, both.proceed 9 (State.initial 1 []) =
      .faulted ⟨.unterminatedLoop 7, t⟩ ∧ t.output = [1, 0] := ⟨_, rfl, rfl⟩
  obtain ⟨-, -, lockstep, -⟩ := goesOn 3 s hp hend hdepth
  have alike := (lockstep 6).state
  rw [hu] at alike
  change s.Continues 3 (both.proceed 9 (State.initial 1 [])).state u at alike
  rw [ht] at alike
  exact ⟨s, t, u, hp, carried 3 s hp, ht, hu, houtput, alike⟩

end Machine

end NibTape

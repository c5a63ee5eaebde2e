import NibTape.Proofs.Inert
import NibTape.Proofs.Insertion
import NibTape.Proofs.Pairing

/-!
# Loops that are never entered

A loop is left only by skipping it, which takes a zero cell, because its end goes back to its
start. So control comes to the position behind a loop on a zero cell, or by a jump back to a
loop that starts there and was entered before. At the start of a program the cell is zero too.
A loop in one of these places is therefore dead: it is skipped the first time and every time.

Nothing else in the program matters for that, be it nested around the dead loop or badly
bracketed. The invariant is that control stays outside the loop, in front of it only on a zero
cell; the loops that can be gone back to are outside as well, since loops are nested.

Putting a dead loop into a program changes nothing but positions and the number of steps.
-/

namespace NibTape

namespace Program

variable {p : Program} {a b i k close : Nat}

/-- The positions to which control does not fall through: the start of the program, and those
right behind a loop. -/
def BehindLoop (p : Program) (k : Nat) : Prop := k = 0 ∨ ∃ a b, p.Pairs a b ∧ k = b + 1

/-- A loop at the start of the program, or right behind another loop. -/
structure DeadLoop (p : Program) (k close : Nat) : Prop where
  behind : p.BehindLoop k
  pair : p.Pairs k close

def withLoop (p : Program) (k : Nat) (body : Program) : Program :=
  p.insertAt k (Opcode.loopStart.byte :: (body.toList ++ [Opcode.loopEnd.byte]))

theorem Pairs.lt (pair : p.Pairs a b) : a < b := (scan?_eq_some pair.2).1

theorem Pairs.opcode?_end (pair : p.Pairs a b) : p.opcode? b = some .loopEnd :=
  (scan?_eq_some pair.2).2

/-- A loop that starts outside of another one ends outside of it. -/
theorem Pairs.end_outside (pair : p.Pairs k close) (other : p.Pairs a b)
    (outside : a < k ∨ close < a) : b < k ∨ close < b := by
  obtain hlt | hlt := outside
  · rcases Nat.lt_or_ge b k with hb | hb
    · exact .inl hb
    · -- a loop around the position `k` is open behind the loop there as well
      have hopen := mem_openLoops_of_le other.1 other.2 hlt hb
      rw [← openLoops_of_loopEnd? pair.1 pair.2, mem_openLoops_iff] at hopen
      exact .inr (hopen.2.2 b other.2)
  · exact .inr (Nat.lt_trans hlt other.lt)

/-- The loops that are open outside of a loop, or in front of it, start outside of it. -/
theorem Pairs.open_outside (pair : p.Pairs k close) (hopen : a ∈ p.openLoops i)
    (outside : i ≤ k ∨ close < i) : a < k ∨ close < a := by
  have hlt := lt_of_mem_openLoops hopen
  obtain hle | hgt := outside
  · exact .inl (Nat.lt_of_lt_of_le hlt hle)
  · rcases Nat.lt_or_ge close a with ha | ha
    · exact .inr ha
    · obtain ⟨-, hop, hends⟩ := mem_openLoops_iff.mp hopen
      have hopen' : a ∈ p.openLoops (close + 1) :=
        mem_openLoops_iff.mpr ⟨by omega, hop, fun e he => Nat.le_trans hgt (hends e he)⟩
      rw [openLoops_of_loopEnd? pair.1 pair.2] at hopen'
      exact .inl (lt_of_mem_openLoops hopen')

/-- What stands in front of a position behind a loop is a loop end with an open loop. -/
theorem BehindLoop.of_succ (behind : p.BehindLoop (i + 1)) :
    p.opcode? i = some .loopEnd ∧ p.openLoops i ≠ [] := by
  obtain hzero | ⟨a, b, pair, hb⟩ := behind
  · cases hzero
  · cases hb
    have hopen := mem_openLoops_of_le pair.1 pair.2 pair.lt (Nat.le_refl i)
    exact ⟨pair.opcode?_end, List.ne_nil_of_mem hopen⟩

theorem BehindLoop.le_size (behind : p.BehindLoop k) : k ≤ p.size := by
  obtain rfl | ⟨a, b, pair, rfl⟩ := behind
  · exact Nat.zero_le _
  · exact lt_size_of_opcode? pair.opcode?_end

/-- An instruction outside of a dead loop that goes on with the next one stays outside. -/
theorem DeadLoop.next_outside (dead : p.DeadLoop k close) (hne : i ≠ k)
    (outside : i ≤ k ∨ close < i) (falls : p.opcode? i = some .loopEnd → p.openLoops i = []) :
    i + 1 ≠ k ∧ (i + 1 ≤ k ∨ close < i + 1) := by
  constructor
  · rintro rfl
    obtain ⟨hop, hopen⟩ := dead.behind.of_succ
    exact hopen (falls hop)
  · omega

/-- A block put behind a loop as the body of another one makes a dead loop. -/
theorem deadLoop_insertAt (behind : p.BehindLoop k) (body : Block) :
    (p.insertAt k (Block.loop body .done).bytes).DeadLoop k (k + 1 + body.bytes.length) := by
  have hk := behind.le_size
  have hcode := holds_insertAt hk (Block.loop body .done).bytes
  refine ⟨?_, hcode.opcode?, loopEnd?_of_holds hcode⟩
  obtain hzero | ⟨a, b, pair, rfl⟩ := behind
  · exact .inl hzero
  · have ha : moved (b + 1) (Block.loop body .done).bytes.length a = a :=
      if_pos (Nat.lt_succ_of_lt pair.lt)
    have hb : moved (b + 1) (Block.loop body .done).bytes.length b = b :=
      if_pos (Nat.lt_succ_self b)
    have hstart := opcode?_insertAt hk (Block.loop body .done).bytes a
    have hclose := loopEnd?_insertAt hk (Block.loop body .done) a
    rw [ha, pair.1] at hstart
    rw [ha, pair.2, Option.map_some, hb] at hclose
    exact .inr ⟨a, b, ⟨hstart, hclose⟩, rfl⟩

end Program

namespace Machine

variable {m : Machine} {body : Block} {s t u v : State} {k close n : Nat}

/-! ### Control stays outside a dead loop -/

/-- Control is outside of a loop, and in front of it only if the loop will be skipped. -/
structure Avoids (m : Machine) (k close : Nat) (s : State) : Prop where
  nested : m.Nested s
  outside : s.ip ≤ k ∨ close < s.ip
  zero : s.ip = k → s.tape.current? = some 0

theorem Move.avoids (move : m.Move s t) (dead : m.program.DeadLoop k close)
    (avoids : m.Avoids k close s) : m.Avoids k close t := by
  have nested := move.nested avoids.nested
  have goesOn : t.ip = s.ip + 1 → s.ip ≠ k →
      (m.program.opcode? s.ip = some .loopEnd → m.program.openLoops s.ip = []) →
      m.Avoids k close t := by
    intro hip hne falls
    obtain ⟨hk, outside⟩ := dead.next_outside hne avoids.outside falls
    exact ⟨nested, hip ▸ outside, fun h => (hk (hip ▸ h)).elim⟩
  -- the only instruction at `k` is the start of the dead loop
  have elsewhere : m.program.opcode? s.ip ≠ some .loopStart → s.ip ≠ k := by
    rintro hop rfl
    exact hop dead.pair.1
  cases move with
  | inert _ hop result =>
      exact goesOn (congrArg State.ip result) (elsewhere (by simp [hop])) (by simp [hop])
  | simple op hop plain _ follows =>
      obtain ⟨hs, he⟩ := Program.not_bracket (p := m.program) (i := s.ip) (by simp [hop, plain])
      exact goesOn follows.ip (elsewhere hs) fun h => (he h).elim
  | enter c hop hcell hc result =>
      refine goesOn ?_ ?_ (by simp [hop])
      · rw [result, State.ip_next, State.ip_openLoop]
      · intro hk
        have hzero := hcell.symm.trans (avoids.zero hk)
        exact hc (Option.some.inj hzero)
  | skip e hop hcell hclose result =>
      rw [result] at nested ⊢
      refine ⟨nested, ?_, fun _ => hcell⟩
      by_cases hk : s.ip = k
      · rw [hk, dead.pair.2, Option.some.injEq] at hclose
        exact .inr (hclose ▸ Nat.lt_succ_self close)
      · have houtside := avoids.outside
        exact (dead.pair.end_outside ⟨hop, hclose⟩ (by omega)).imp id Nat.lt_succ_of_lt
  | back start rest hop hpop result =>
      rw [result] at nested ⊢
      have hstart := dead.pair.open_outside (avoids.nested.mem_openLoops hpop) avoids.outside
      have hlt := dead.pair.lt
      refine ⟨nested, hstart.imp Nat.le_of_lt id, ?_⟩
      intro (hk : start = k)
      omega
  | stray hop hpop _ result =>
      refine goesOn (congrArg State.ip result) (elsewhere (by simp [hop])) fun _ => ?_
      rw [← avoids.nested]
      exact (LoopStack.pop?_eq_none_iff _).mp hpop

theorem Path.avoids (hp : m.Path s n t) (valid : m.Valid s)
    (dead : m.program.DeadLoop k close) (avoids : m.Avoids k close s) : m.Avoids k close t := by
  have both := hp.keeps (P := fun s => m.Valid s ∧ m.Avoids k close s)
    (fun s t h hstep =>
      ⟨h.1.step hstep, (move_of_step h.1.sheltered hstep).avoids dead h.2⟩) ⟨valid, avoids⟩
  exact both.2

/-- At the start of a run all cells are zero. -/
theorem avoids_initial (m : Machine) (k close : Nat) {cells : Nat} (pos : 0 < cells)
    (input : List UInt8) : m.Avoids k close (State.initial cells input) := by
  refine ⟨nested_initial m cells input, .inl (Nat.zero_le k), fun _ => ?_⟩
  rw [Tape.current?_of_lt pos]
  exact congrArg some (Tape.value_blank cells _)

/-! ### With and without a dead loop -/

def looped (m : Machine) (k : Nat) (body : Block) : Machine :=
  m.running (m.program.insertAt k (Block.loop body .done).bytes)

/-- A state of a machine and one of the machine with a loop put into its program, at the same
instruction of the program or in front of the loop. -/
structure SkipsTo (m : Machine) (k : Nat) (body : Block) (s u : State) : Prop where
  alike : s.Alike Eq (Program.moved k (Block.loop body .done).bytes.length)
    (Program.past k (Block.loop body .done).bytes.length) u
  avoids : (m.looped k body).Avoids k (k + 1 + body.bytes.length) u

namespace SkipsTo

/-- In front of the loop the machine skips it. -/
theorem skip (related : m.SkipsTo k body s u) (behind : m.program.BehindLoop k)
    (hk : u.ip = k) :
    ∃ v, (m.looped k body).step u = .ok v ∧ m.SkipsTo k body s v ∧ v.ip ≠ k := by
  have dead := Program.deadLoop_insertAt behind body
  have hcell := related.avoids.zero hk
  have hlength : (Block.loop body .done).bytes.length = body.bytes.length + 2 := by
    simp [Block.bytes]
  have hne : k + 1 + body.bytes.length + 1 ≠ k := by omega
  refine ⟨u.jump (k + 1 + body.bytes.length + 1),
    step_skip (hk ▸ dead.pair.1) hcell (hk ▸ dead.pair.2), ⟨⟨?_, related.alike.loops,
      related.alike.scene⟩, ?_⟩, hne⟩
  · rw [related.alike.place, hk, Program.past_self]
    change _ = Program.past k _ (k + 1 + body.bytes.length + 1)
    rw [Program.past_of_ne hne]
    omega
  · have move : (m.looped k body).Move u (u.jump (k + 1 + body.bytes.length + 1)) :=
      .skip _ (hk ▸ dead.pair.1) hcell (hk ▸ dead.pair.2) rfl
    exact move.avoids dead related.avoids

end SkipsTo

/-- A loop put behind another one is transparent: it is skipped. -/
theorem transparent_loop (behind : m.program.BehindLoop k) (body : Block) :
    m.Transparent k (.loop body .done) Eq (m.SkipsTo k body) where
  laws := Tape.respected_eq m.policy
  bound := behind.le_size
  across related := related.alike
  keep safe related hstep after := by
    have move := move_of_step safe hstep
    exact ⟨after, move.avoids (Program.deadLoop_insertAt behind body) related.avoids⟩
  pass {s u} _ related hk := by
    obtain ⟨v, hstep, after, hne⟩ := related.skip behind hk
    exact ⟨1, v, .single hstep, after, hne⟩

/-- The machine with a dead loop follows the machine without it: it skips the loop. -/
theorem looped_tracks (behind : m.program.BehindLoop k) (body : Block) :
    (m.looped k body).Tracks m (m.SkipsTo k body)
      (Fault.MovedBy k (Block.loop body .done).bytes.length) :=
  (transparent_loop behind body).tracks

/-- The machine without a dead loop follows the machine with it: it waits at the loop. -/
theorem tracks_looped (behind : m.program.BehindLoop k) (body : Block) :
    m.Tracks (m.looped k body) (fun u s => m.SkipsTo k body s u) (fun _ _ => True) := by
  refine (transparent_loop behind body).tracks_waiting (fun {u s} _ related => ?_) fun _ => id
  by_cases hk : u.ip = k
  · obtain ⟨v, hstep, after, -⟩ := related.skip behind hk
    exact .inr ⟨v, hstep, after⟩
  · exact .inl ⟨related, hk⟩

end Machine

/-- A loop put at the start of a program, or right behind a loop of the program, is never
entered and changes nothing: the two programs complete alike, fail alike at the same
instruction of the program, or both go on forever. -/
theorem dead_loops_are_invisible {size : Int} {cells : Nat}
    (valid : StepSize.ofInt size = .ok cells) (policy : Policy) (eof : EndOfInput)
    (input : List UInt8) (p body : Program) (k : Nat) (behind : p.BehindLoop k)
    (balanced : body.Balanced) :
    let m : Machine := { program := p, policy, eof }
    let n : Machine := { program := p.withLoop k body, policy, eof }
    let start := State.initial cells input
    m.RunAlike n State.ShowsAs (Fault.MovedBy k (body.size + 2)) start start ∧
    ∀ i u, n.Path start i u → u.ip ≤ k ∨ k + 1 + body.size < u.ip := by
  intro m n start
  have pos : 0 < cells := (StepSize.ofInt_eq_ok_iff.mp valid).2.1
  obtain ⟨block, hparse⟩ := Block.exists_parse? balanced
  have hbytes := Block.bytes_of_parse? hparse
  have hsize : block.bytes.length = body.size := by rw [hbytes, Array.length_toList]
  have hn : n = m.looped k block := by
    simp only [n, m, Machine.looped, Machine.running, Program.withLoop, Block.bytes, hbytes]
  have hlength : (Block.loop block .done).bytes.length = body.size + 2 := by
    simp [Block.bytes, hsize]
  have dead := Program.deadLoop_insertAt behind block
  have hstart := Machine.avoids_initial (m.looped k block) k (k + 1 + block.bytes.length) pos input
  have related : m.SkipsTo k block start start :=
    ⟨⟨Program.moved_zero k _, rfl, rfl, rfl, rfl⟩, hstart⟩
  rw [hn, ← hlength, ← hsize]
  refine ⟨?_, ?_⟩
  · exact (Machine.looped_tracks behind block).runAlike (Machine.tracks_looped behind block)
      (Machine.valid_initial m pos input) (Machine.valid_initial _ pos input) related related
      fun related => related.alike.showsAs
  · intro i u hp
    exact (hp.avoids (Machine.valid_initial _ pos input) dead hstart).outside

/-- In `]+[[-]][` the inner loop is behind a stray loop end and in front of an open loop. With
`[.]` behind it the program fails at the open loop as before, three positions later. -/
theorem dead_loop_in_unterminated_program :
    let m : Machine :=
      { program := #[1, 2, 4, 4, 5, 1, 1, 4], policy := .permissive, eof := .zero }
    let n : Machine :=
      { program := #[1, 2, 4, 4, 5, 1, 4, 0, 1, 1, 4], policy := .permissive, eof := .zero }
    let start := State.initial 1 []
    n.program = m.program.withLoop 6 #[0] ∧
    (∃ t, m.run? 20 none start = some (.error ⟨.unterminatedLoop 7, t⟩)) ∧
    (∃ t, n.run? 20 none start = some (.error ⟨.unterminatedLoop 10, t⟩)) ∧
    m.RunAlike n State.ShowsAs (Fault.MovedBy 6 3) start start ∧
    ∀ i u, n.Path start i u → u.ip ≤ 6 ∨ 8 < u.ip := by
  intro m n start
  have valid : StepSize.ofInt 1 = .ok 1 := rfl
  have behind : m.program.BehindLoop 6 := .inr ⟨3, 5, ⟨rfl, rfl⟩, rfl⟩
  obtain ⟨alike, outside⟩ :=
    dead_loops_are_invisible valid .permissive .zero [] m.program #[0] 6 behind (by decide)
  obtain ⟨t, hrun⟩ : ∃ t, m.run? 20 none (State.initial 1 []) =
      some (.error ⟨.unterminatedLoop 7, t⟩) := ⟨_, rfl⟩
  obtain ⟨t', hrun'⟩ : ∃ t', n.run? 20 none (State.initial 1 []) =
      some (.error ⟨.unterminatedLoop 10, t'⟩) := ⟨_, rfl⟩
  exact ⟨rfl, ⟨t, hrun⟩, ⟨t', hrun'⟩, alike, outside⟩

end NibTape

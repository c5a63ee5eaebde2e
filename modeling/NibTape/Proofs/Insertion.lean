import NibTape.Proofs.Block
import NibTape.Proofs.Parallel

/-!
# Code inserted into a program

Code that is put in front of a position moves the instructions from there on further back. If
the code is a block, the scans of the program pass over it, and every loop keeps its end.

Control that comes to the position of the inserted code has not been in it yet, although the
instruction that it would execute next without the code stands behind it. So a state in front
of the code and one behind it correspond to the same state of the program without the code.
Away from the code the two programs keep in step.

A block is transparent if whatever the machine does in it comes to nothing: behind it the state
corresponds to the same state as in front of it. The machine without the block then waits while
the other one is inside, and the two run alike.
-/

namespace NibTape

namespace Program

variable {p : Program} {code : List UInt8} {block : Block} {k n i j d : Nat}

def insertAt (p : Program) (k : Nat) (code : List UInt8) : Program :=
  (p.toList.take k ++ (code ++ p.toList.drop k)).toArray

/-- Where an instruction stands when `n` bytes of code have been put in front of position `k`. -/
def moved (k n i : Nat) : Nat := if i < k then i else i + n

/-- The position behind `n` bytes of code at position `k`, if control stands in front of them. -/
def past (k n i : Nat) : Nat := if i = k then k + n else i

theorem past_of_ne (h : i ≠ k) : past k n i = i := if_neg h

theorem past_self : past k n k = k + n := if_pos rfl

theorem moved_zero (k n : Nat) : moved k n 0 = past k n 0 := by
  simp only [moved, past]
  split <;> split <;> omega

/-- Right in front of the code the next instruction stands behind it, elsewhere it comes next. -/
theorem moved_succ (k n i : Nat) : moved k n (i + 1) = past k n (moved k n i + 1) := by
  simp only [moved, past]
  split <;> split <;> split <;> omega

/-! ### The text -/

theorem size_insertAt (p : Program) (k : Nat) (code : List UInt8) :
    (p.insertAt k code).size = p.size + code.length := by
  simp only [insertAt, List.size_toArray, List.length_append, List.length_take, List.length_drop,
    Array.length_toList]
  omega

theorem getElem?_insertAt (h : k ≤ p.size) (code : List UInt8) (i : Nat) :
    (p.insertAt k code)[moved k code.length i]? = p[i]? := by
  have hfront : (p.toList.take k).length = k := by simp [h]
  simp only [insertAt, moved, List.getElem?_toArray]
  split
  · rename_i hlt
    rw [List.getElem?_append_left (by omega), List.getElem?_take_of_lt hlt, Array.getElem?_toList]
  · rename_i hge
    rw [List.getElem?_append_right (by omega), List.getElem?_append_right (by omega),
      List.getElem?_drop, Array.getElem?_toList, hfront]
    congr 1
    omega

theorem opcode?_insertAt (h : k ≤ p.size) (code : List UInt8) (i : Nat) :
    (p.insertAt k code).opcode? (moved k code.length i) = p.opcode? i := by
  rw [opcode?, opcode?, getElem?_insertAt h]

theorem holds_insertAt (h : k ≤ p.size) (code : List UInt8) : (p.insertAt k code).Holds k code := by
  have hfront : (p.toList.take k).length = k := by simp [h]
  have hdrop : (p.insertAt k code).toList.drop k = code ++ p.toList.drop k := by
    rw [insertAt, List.toList_toArray, List.drop_append_of_le_length hfront.ge,
      List.drop_of_length_le hfront.le, List.nil_append]
  rw [Holds, hdrop]
  exact List.prefix_append code _

/-- A scan that comes to an inserted block goes on behind it. -/
theorem scan?_past (h : k ≤ p.size) (block : Block) (i d : Nat) :
    (p.insertAt k block.bytes).scan? (past k block.bytes.length i) d =
      (p.insertAt k block.bytes).scan? i d := by
  by_cases hi : i = k
  · rw [hi, past_self, scan?_block (holds_insertAt h block.bytes)]
  · rw [past_of_ne hi]

/-- In a program with a block inserted, a scan finds the same loop ends as without it. -/
theorem scan?_insertAt (h : k ≤ p.size) (block : Block) (i d : Nat) :
    (p.insertAt k block.bytes).scan? (moved k block.bytes.length i) d =
      (p.scan? i d).map (moved k block.bytes.length) := by
  have hop := fun i => opcode?_insertAt h block.bytes i
  have later : ∀ i d, (p.insertAt k block.bytes).scan? (moved k block.bytes.length (i + 1)) d =
        (p.scan? (i + 1) d).map (moved k block.bytes.length) →
      (p.insertAt k block.bytes).scan? (moved k block.bytes.length i + 1) d =
        (p.scan? (i + 1) d).map (moved k block.bytes.length) := by
    intro i d hscan
    rw [← scan?_past h, ← moved_succ]
    exact hscan
  induction i, d using scan_induction (p := p) with
  | past i d hsize =>
      rw [scan?_of_size_le hsize, scan?_of_size_le, Option.map_none]
      rw [size_insertAt, moved]
      split <;> omega
  | start i d hs ih => rw [scan?_of_start hs, scan?_of_start ((hop i).trans hs), later i _ ih]
  | found i he =>
      rw [scan?_of_end_zero he, scan?_of_end_zero ((hop i).trans he)]
      rfl
  | inner i d he ih =>
      rw [scan?_of_end_succ he, scan?_of_end_succ ((hop i).trans he), later i _ ih]
  | other i d _ hs he ih =>
      rw [scan?_of_other hs he, scan?_of_other (hop i ▸ hs) (hop i ▸ he), later i _ ih]

theorem loopEnd?_insertAt (h : k ≤ p.size) (block : Block) (i : Nat) :
    (p.insertAt k block.bytes).loopEnd? (moved k block.bytes.length i) =
      (p.loopEnd? i).map (moved k block.bytes.length) := by
  rw [loopEnd?_eq_scan?, ← scan?_past h, ← moved_succ, scan?_insertAt h, loopEnd?_eq_scan?]

end Program

/-- The same fault of an instruction that `n` bytes of code inserted at `k` have moved. -/
def Fault.MovedBy (k n : Nat) (f g : Fault) : Prop :=
  ∃ i, f.ip? = some i ∧ g = f.relocate (Program.moved k n i)

namespace Machine

variable {m : Machine} {block : Block} {T : Tape → Tape → Prop} {R O : State → State → Prop}
variable {s t u v : State} {k : Nat}

def inserted (m : Machine) (k : Nat) (block : Block) : Machine :=
  m.running (m.program.insertAt k block.bytes)

/-- A state of a machine and one of the machine with a block inserted: at the same instruction of
the program, or in front of the block and of the instruction behind it. -/
def Across (k : Nat) (block : Block) (T : Tape → Tape → Prop) (s u : State) : Prop :=
  s.Alike T (Program.moved k block.bytes.length) (Program.past k block.bytes.length) u

theorem Across.ip_eq (across : Across k block T s u) (hne : u.ip ≠ k) :
    u.ip = Program.moved k block.bytes.length s.ip := by
  rw [← Program.past_of_ne hne]
  exact across.place.symm

/-- Away from the block, one machine is at the end of its program if the other is. -/
theorem Across.finished_eq (across : Across k block T s u) (hk : k ≤ m.program.size)
    (hne : u.ip ≠ k) : (m.inserted k block).finished u = m.finished s := by
  have hsize := Program.size_insertAt m.program k block.bytes
  have hip := across.ip_eq hne
  rw [Program.moved] at hip
  rw [Bool.eq_iff_iff, finished_iff, finished_iff]
  change (m.program.insertAt k block.bytes).size ≤ u.ip ↔ _
  split at hip <;> omega

/-- Where accesses are not checked, one cursor stands on a cell if the other does. -/
theorem Across.sheltered_iff (across : Across k block T s u) (laws : Tape.Respected m.policy T) :
    (m.inserted k block).Sheltered u ↔ m.Sheltered s := by
  refine forall_congr' fun _ => ?_
  obtain ⟨hin, hin'⟩ | ⟨-, hcursor, hlength⟩ := laws.access across.scene.tape
  · exact iff_of_true hin' hin
  · simp only [State.scene_tape] at hcursor hlength
    rw [hcursor, hlength]

/-- An instruction of the program keeps a machine in step with one that runs the program with
a block inserted, unless that one stands in front of the block. -/
theorem inStep_insertAt (laws : Tape.Respected m.policy T) (hk : k ≤ m.program.size)
    (safe : m.Sheltered s) (across : Across k block T s u) (hne : u.ip ≠ k)
    (hs : m.finished s = false) :
    InStep T (Program.moved k block.bytes.length) (Program.past k block.bytes.length) s u
      (m.step s) ((m.inserted k block).step u) := by
  have here := across.ip_eq hne
  have hnext : Program.moved k block.bytes.length (s.ip + 1) =
      Program.past k block.bytes.length (u.ip + 1) := by
    rw [here, Program.moved_succ]
  have hopcode : (m.program.insertAt k block.bytes).opcode? u.ip = m.program.opcode? s.ip := by
    rw [here, Program.opcode?_insertAt hk]
  cases hop : m.program.opcode? s.ip with
  | none =>
      have hlt := unfinished_iff.mp hs
      have hlt' := unfinished_iff.mp ((across.finished_eq hk hne).trans hs)
      rw [step_inert hlt hop, step_inert (m := m.inserted k block) hlt' (hopcode.trans hop)]
      exact .moved ⟨hnext, across.loops, across.scene⟩
  | some op =>
      refine inStep_of_opcode laws safe across hop (hopcode.trans hop) hnext fun _ => ?_
      rw [here, Program.loopEnd?_insertAt hk, Option.map_map]
      congr 1
      funext j
      exact Program.moved_succ k block.bytes.length j

/-! ### Blocks that make no difference -/

/-- A block is transparent if control that comes to it comes to the position behind it, and is
related there to the same states as in front of it. What else the relation `R` asks of a state of
the machine with the block, the steps of that machine keep. -/
structure Transparent (m : Machine) (k : Nat) (block : Block) (T : Tape → Tape → Prop)
    (R : State → State → Prop) : Prop where
  laws : Tape.Respected m.policy T
  bound : k ≤ m.program.size
  across {s u : State} : R s u → Across k block T s u
  keep {s t u v : State} : (m.inserted k block).Sheltered u → R s u →
    (m.inserted k block).step u = .ok v → Across k block T t v → R t v
  pass {s u : State} : (m.inserted k block).Sheltered u → R s u → u.ip = k →
    ∃ i v, (m.inserted k block).Path u i v ∧ R s v ∧ v.ip ≠ k

/-- From `u` on, the machine with the block comes to a state away from the block. -/
def CatchesUp (m : Machine) (k : Nat) (block : Block) (R : State → State → Prop)
    (u s : State) : Prop :=
  ∃ i v, (m.inserted k block).Path u i v ∧ R s v ∧ v.ip ≠ k

namespace Transparent

theorem catchesUp (transparent : m.Transparent k block T R)
    (safe : (m.inserted k block).Sheltered u) (related : R s u) : m.CatchesUp k block R u s := by
  by_cases hk : u.ip = k
  · exact transparent.pass safe related hk
  · exact ⟨0, u, .start, related, hk⟩

theorem sheltered_iff (transparent : m.Transparent k block T R) (related : R s u) :
    (m.inserted k block).Sheltered u ↔ m.Sheltered s :=
  (transparent.across related).sheltered_iff transparent.laws

theorem finished_eq (transparent : m.Transparent k block T R) (related : R s u)
    (hne : u.ip ≠ k) : (m.inserted k block).finished u = m.finished s :=
  (transparent.across related).finished_eq transparent.bound hne

/-- Away from the block, both machines make a step, or both fail. -/
theorem step (transparent : m.Transparent k block T R) (safe : m.Sheltered s)
    (related : R s u) (hne : u.ip ≠ k) (hs : m.finished s = false) :
    (∃ t v, m.step s = .ok t ∧ (m.inserted k block).step u = .ok v ∧ R t v) ∨
    ∃ f g, m.step s = .error ⟨f, s⟩ ∧ (m.inserted k block).step u = .error ⟨g, u⟩ ∧
      f.MovedBy k block.bytes.length g := by
  have across := transparent.across related
  have here := across.ip_eq hne
  have safe' := (transparent.sheltered_iff related).mpr safe
  have inStep := inStep_insertAt transparent.laws transparent.bound safe across hne hs
  generalize ht : m.step s = rs at inStep
  generalize hv : (m.inserted k block).step u = ru at inStep
  cases inStep with
  | moved after => exact .inl ⟨_, _, rfl, rfl, transparent.keep safe' related hv after⟩
  | failed hip => exact .inr ⟨_, _, rfl, rfl, _, hip, here ▸ rfl⟩

/-- The machine with the block follows the machine without it: it passes the block. -/
theorem tracks (transparent : m.Transparent k block T R) :
    (m.inserted k block).Tracks m R (Fault.MovedBy k block.bytes.length) where
  step {s t u} valid related hstep := by
    have safe := (transparent.sheltered_iff related).mpr valid.sheltered
    obtain ⟨i, v, hp, before, hne⟩ := transparent.catchesUp safe related
    obtain ⟨t', v', ht, hv, after⟩ | ⟨f, g, hs, -, -⟩ :=
      transparent.step valid.sheltered before hne (unfinished_of_step hstep)
    · rw [hstep, Except.ok.injEq] at ht
      exact ⟨i + 1, v', hp.next hv, ht ▸ after⟩
    · rw [hstep] at hs
      cases hs
  finish {s u} valid related hend := by
    have safe := (transparent.sheltered_iff related).mpr valid.sheltered
    obtain ⟨i, v, hp, before, hne⟩ := transparent.catchesUp safe related
    exact ⟨i, v, hp, (transparent.finished_eq before hne).trans hend, before⟩
  fail {s u f} valid related hs hstep := by
    have safe := (transparent.sheltered_iff related).mpr valid.sheltered
    obtain ⟨i, v, hp, before, hne⟩ := transparent.catchesUp safe related
    obtain ⟨t, v', ht, -, -⟩ | ⟨f', g, hs', hv, moved⟩ :=
      transparent.step valid.sheltered before hne hs
    · rw [hstep] at ht
      cases ht
    · rw [hstep] at hs'
      cases hs'
      exact ⟨i, v, g, hp, (transparent.finished_eq before hne).trans hs, hv, moved, before⟩

/-- The machine without the block follows the machine with it: it waits while that one is at the
block, as long as `Q` says so. -/
theorem tracks_waiting {Q : State → State → Prop} (transparent : m.Transparent k block T R)
    (wait : ∀ {u s}, (m.inserted k block).Sheltered u → Q u s →
      (R s u ∧ u.ip ≠ k) ∨ ∃ v, (m.inserted k block).step u = .ok v ∧ Q v s)
    (resume : ∀ {u s}, (m.inserted k block).Sheltered u → R s u → Q u s) :
    m.Tracks (m.inserted k block) Q (fun _ _ => True) where
  step {u u' s} valid related hstep := by
    obtain ⟨before, hne⟩ | ⟨v, hv, after⟩ := wait valid.sheltered related
    · have safe := (transparent.sheltered_iff before).mp valid.sheltered
      have hs := (transparent.finished_eq before hne).symm.trans (unfinished_of_step hstep)
      obtain ⟨t, v, ht, hv, after⟩ | ⟨f, g, -, hu, -⟩ := transparent.step safe before hne hs
      · rw [hstep, Except.ok.injEq] at hv
        exact ⟨1, t, .single ht, resume (valid.step hstep).sheltered (hv ▸ after)⟩
      · rw [hstep] at hu
        cases hu
    · rw [hstep, Except.ok.injEq] at hv
      exact ⟨0, s, .start, hv ▸ after⟩
  finish {u s} valid related hend := by
    obtain ⟨before, hne⟩ | ⟨v, hv, -⟩ := wait valid.sheltered related
    · exact ⟨0, s, .start, (transparent.finished_eq before hne).symm.trans hend, related⟩
    · rw [step_of_finished hend] at hv
      cases hv
  fail {u s f} valid related hu hstep := by
    obtain ⟨before, hne⟩ | ⟨v, hv, -⟩ := wait valid.sheltered related
    · have safe := (transparent.sheltered_iff before).mp valid.sheltered
      have hs := (transparent.finished_eq before hne).symm.trans hu
      obtain ⟨t, v, -, hv, -⟩ | ⟨f', g, hs', -, -⟩ := transparent.step safe before hne hs
      · rw [hstep] at hv
        cases hv
      · exact ⟨0, s, f', .start, hs, hs', trivial, related⟩
    · rw [hstep] at hv
      cases hv

/-- A transparent block changes nothing in a run but positions and the number of steps. -/
theorem runAlike (transparent : m.Transparent k block T R) (valid : m.Valid s)
    (valid' : (m.inserted k block).Valid u) (related : R s u)
    (shows : ∀ {s u : State}, R s u → O (s.emit .flushed) (u.emit .flushed)) :
    m.RunAlike (m.inserted k block) O (Fault.MovedBy k block.bytes.length) s u := by
  have back : m.Tracks (m.inserted k block) (m.CatchesUp k block R) (fun _ _ => True) := by
    refine transparent.tracks_waiting ?_ transparent.catchesUp
    rintro u s - ⟨i, v, hp, before, hne⟩
    cases i with
    | zero =>
        rw [Path.zero_iff.mp hp] at before hne
        exact .inl ⟨before, hne⟩
    | succ i =>
        obtain ⟨w, hw, rest⟩ := hp.uncons
        exact .inr ⟨w, hw, i, v, rest, before, hne⟩
  exact transparent.tracks.runAlike back valid valid' related
    (transparent.catchesUp valid'.sheltered related) shows

end Transparent

end Machine

end NibTape

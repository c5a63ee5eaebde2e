import NibTape.Proofs.Nesting
import NibTape.Proofs.Packing
import NibTape.Proofs.Parallel

/-!
# Inert bytes change nothing

The rank of a position is the number of opcodes in front of it. It does not change at an inert
byte, so the rank, and not the position itself, is what two programs with the same opcodes
have in common. The forward scan finds loop ends of the same rank in both of them, the open
loops have the same ranks, and an error names instructions of the same rank.

An execution of one program is followed in the other by passing over the inert bytes in front
of the next opcode. As each machine tracks the other, their runs complete alike, fail alike
or go on forever alike; only the positions and the number of steps differ.
-/

namespace NibTape

namespace Program

variable {p q : Program} {i j d : Nat} {op : Opcode}

/-- How many opcodes stand in front of a position. -/
def rank (p : Program) : Nat → Nat
  | 0 => 0
  | i + 1 =>
    match p.opcode? i with
    | some _ => p.rank i + 1
    | none => p.rank i

def opcodesFrom (p : Program) (i : Nat) : List Opcode :=
  (p.toList.drop i).filterMap Opcode.ofByte?

theorem rank_of_opcode (h : p.opcode? i = some op) : p.rank (i + 1) = p.rank i + 1 := by
  simp only [rank, h]

theorem rank_of_inert (h : p.opcode? i = none) : p.rank (i + 1) = p.rank i := by
  simp only [rank, h]

theorem opcodesFrom_of_end (h : p.size ≤ i) : p.opcodesFrom i = [] := by
  rw [opcodesFrom, List.drop_of_length_le (by simpa using h), List.filterMap_nil]

/-- The opcodes from a position on are the one that stands there, if any, and those from the
next position on. -/
theorem opcodesFrom_eq (p : Program) (i : Nat) :
    p.opcodesFrom i = (p.opcode? i).toList ++ p.opcodesFrom (i + 1) := by
  rcases Nat.lt_or_ge i p.size with hlt | hge
  · have hop : p.opcode? i = Opcode.ofByte? p[i] := by simp [opcode?, hlt]
    rw [opcodesFrom, List.drop_eq_getElem_cons (by simpa using hlt), List.filterMap_cons, hop]
    simp only [Array.getElem_toList, opcodesFrom]
    cases Opcode.ofByte? p[i] <;> rfl
  · have hop : p.opcode? i = none := by simp [opcode?, hge]
    rw [opcodesFrom_of_end hge, opcodesFrom_of_end (Nat.le_succ_of_le hge), hop]
    rfl

theorem opcodesFrom_of_opcode (h : p.opcode? i = some op) :
    p.opcodesFrom i = op :: p.opcodesFrom (i + 1) := by
  rw [opcodesFrom_eq, h]
  rfl

theorem opcodesFrom_of_inert (h : p.opcode? i = none) :
    p.opcodesFrom i = p.opcodesFrom (i + 1) := by
  rw [opcodesFrom_eq, h]
  rfl

/-- The rank of a position says where its opcodes begin among all opcodes. -/
theorem drop_rank (p : Program) (i : Nat) : p.opcodes.drop (p.rank i) = p.opcodesFrom i := by
  induction i with
  | zero => rfl
  | succ i ih =>
      cases h : p.opcode? i with
      | none => rw [rank_of_inert h, ih, opcodesFrom_of_inert h]
      | some op =>
          rw [opcodesFrom_of_opcode h] at ih
          rw [rank_of_opcode h, ← List.tail_drop, ih, List.tail_cons]

theorem opcodesFrom_eq_of_rank (same : p.opcodes = q.opcodes) (h : p.rank i = q.rank j) :
    p.opcodesFrom i = q.opcodesFrom j := by
  rw [← drop_rank, ← drop_rank, same, h]

end Program

/-- How many opcodes a scan passes until it has closed the loop around `depth` others, the
loop end included. -/
def Opcode.closing? : List Opcode → (depth : Nat) → Option Nat
  | [], _ => none
  | .loopStart :: rest, depth => (closing? rest (depth + 1)).map (· + 1)
  | .loopEnd :: _, 0 => some 1
  | .loopEnd :: rest, depth + 1 => (closing? rest depth).map (· + 1)
  | _ :: rest, depth => (closing? rest depth).map (· + 1)

namespace Program

variable {p q : Program} {i j d : Nat} {op : Opcode}

/-- The forward scan sees opcodes only: the rank behind the loop end that it finds can be read
off the opcodes. -/
theorem rank_scan? (p : Program) (i d : Nat) :
    (p.scan? i d).map (fun j => p.rank (j + 1)) =
      (Opcode.closing? (p.opcodesFrom i) d).map (p.rank i + ·) := by
  generalize hcount : p.size - i = remaining
  induction remaining generalizing i d with
  | zero =>
      rw [opcodesFrom_of_end (by omega)]
      simp [scan?, hcount, closeFrom?, Opcode.closing?]
  | succ remaining ih =>
      have later : ∀ d, (p.scan? (i + 1) d).map (fun j => p.rank (j + 1)) =
          (Opcode.closing? (p.opcodesFrom (i + 1)) d).map (p.rank (i + 1) + ·) :=
        fun d => ih (i + 1) d (by omega)
      cases hop : p.opcode? i with
      | none =>
          rw [scan?_of_other (by simp [hop]) (by simp [hop]), later, opcodesFrom_of_inert hop,
            rank_of_inert hop]
      | some op =>
          have shift : (fun k => p.rank (i + 1) + k) = fun k => p.rank i + (k + 1) := by
            funext k
            rw [rank_of_opcode hop]
            omega
          rw [shift] at later
          rw [opcodesFrom_of_opcode hop]
          cases op with
          | loopStart =>
              rw [scan?_of_start hop, later, Opcode.closing?, Option.map_map]
              rfl
          | loopEnd =>
              cases d with
              | zero =>
                  rw [scan?_of_end_zero hop]
                  simp [Opcode.closing?, rank_of_opcode hop]
              | succ d =>
                  rw [scan?_of_end_succ hop, later, Opcode.closing?, Option.map_map]
                  rfl
          | _ =>
              rw [scan?_of_other (by simp [hop]) (by simp [hop]), later]
              simp only [Opcode.closing?, Option.map_map]
              rfl

/-- In programs with the same opcodes, loop starts of the same rank have loop ends of the same
rank, or none. -/
theorem rank_loopEnd? (same : p.opcodes = q.opcodes) (hp : p.opcode? i = some op)
    (hq : q.opcode? j = some op) (h : p.rank i = q.rank j) :
    (p.loopEnd? i).map (fun k => p.rank (k + 1)) =
      (q.loopEnd? j).map fun k => q.rank (k + 1) := by
  have hnext : p.rank (i + 1) = q.rank (j + 1) := by
    rw [rank_of_opcode hp, rank_of_opcode hq, h]
  rw [loopEnd?_eq_scan?, loopEnd?_eq_scan?, rank_scan?, rank_scan?, hnext,
    opcodesFrom_eq_of_rank same hnext]

end Program

/-- Two states with the same scene, at positions of the same rank. -/
def State.SameRank (p q : Program) (s u : State) : Prop := s.Alike Eq p.rank q.rank u

/-- Two states that show the same when a run is over: tape, cursor, unread input, output and
the number of open loops. -/
structure State.ShowsAs (s u : State) : Prop where
  scene : s.scene = u.scene
  depth : s.loops.depth = u.loops.depth

/-- Two faults of one kind at the same occurrence of an opcode; an access out of bounds is one
to the same cursor and tape length. -/
def Fault.SameOccurrence (p q : Program) (f g : Fault) : Prop :=
  ∃ i j op, f.ip? = some i ∧ g = f.relocate j ∧ p.opcode? i = some op ∧
    q.opcode? j = some op ∧ p.rank i = q.rank j

/-- States with the same scene and corresponding open loops show the same. -/
theorem State.Alike.showsAs {f g : Nat → Nat} {s u : State} (alike : s.Alike Eq f g u) :
    (s.emit .flushed).ShowsAs (u.emit .flushed) :=
  ⟨by rw [scene_emit_flushed, scene_emit_flushed, alike.scene.eq], alike.depth_eq⟩

namespace State.SameRank

variable {p q : Program} {s u v : State}

/-- The second state may pass over inert bytes. -/
theorem pass (same : SameRank p q s u) (hrank : q.rank v.ip = q.rank u.ip)
    (hloops : v.loops = u.loops) (hscene : v.scene = u.scene) : SameRank p q s v := by
  refine ⟨?_, ?_, ?_⟩
  · rw [hrank]
    exact same.place
  · rw [hloops]
    exact same.loops
  · rw [hscene]
    exact same.scene

end State.SameRank

namespace Machine

variable {m : Machine} {q : Program} {s t u : State} {op : Opcode}

/-- From every state the machine comes to the next opcode, or to the end of the program, by
passing over inert bytes. -/
theorem exists_path_to_opcode (m : Machine) (u : State) :
    ∃ k v, m.Path u k v ∧ m.program.rank v.ip = m.program.rank u.ip ∧
      v.loops = u.loops ∧ v.scene = u.scene ∧
      (m.finished v = true ∨ ∃ op, m.program.opcode? v.ip = some op) := by
  generalize hcount : m.program.size - u.ip = remaining
  induction remaining generalizing u with
  | zero => exact ⟨0, u, .start, rfl, rfl, rfl, .inl (finished_iff.mpr (by omega))⟩
  | succ remaining ih =>
      cases hop : m.program.opcode? u.ip with
      | some op => exact ⟨0, u, .start, rfl, rfl, rfl, .inr ⟨op, hop⟩⟩
      | none =>
          have hip : u.next.ip = u.ip + 1 := rfl
          obtain ⟨k, v, hp, hrank, hloops, hscene, hstop⟩ := ih u.next (by rw [hip]; omega)
          rw [hip, Program.rank_of_inert hop] at hrank
          exact ⟨k + 1, v, hp.cons (step_inert (by omega) hop), hrank, hloops, hscene, hstop⟩

/-- The second machine catches up: past its inert bytes it has the opcodes of the first one in
front of it. -/
theorem exists_path_to_rest (same : m.program.opcodes = q.opcodes)
    (related : State.SameRank m.program q s u) :
    ∃ k v, (m.running q).Path u k v ∧ State.SameRank m.program q s v ∧
      m.program.opcodesFrom s.ip = q.opcodesFrom v.ip ∧
      ((m.running q).finished v = true ∨ ∃ op, q.opcode? v.ip = some op) := by
  obtain ⟨k, v, hp, hrank, hloops, hscene, hstop⟩ := (m.running q).exists_path_to_opcode u
  have after : State.SameRank m.program q s v := related.pass hrank hloops hscene
  exact ⟨k, v, hp, after, Program.opcodesFrom_eq_of_rank same after.place, hstop⟩

/-- In front of an opcode of one program, the other program comes to the same opcode. -/
theorem exists_path_to_same_opcode (same : m.program.opcodes = q.opcodes)
    (related : State.SameRank m.program q s u) (hop : m.program.opcode? s.ip = some op) :
    ∃ k v, (m.running q).Path u k v ∧ State.SameRank m.program q s v ∧
      q.opcode? v.ip = some op := by
  obtain ⟨k, v, hp, after, hrest, hend | ⟨op', hop'⟩⟩ := exists_path_to_rest same related
  · have hsize : q.size ≤ v.ip := finished_iff.mp hend
    rw [Program.opcodesFrom_of_opcode hop, Program.opcodesFrom_of_end hsize] at hrest
    cases hrest
  · rw [Program.opcodesFrom_of_opcode hop, Program.opcodesFrom_of_opcode hop',
      List.cons.injEq] at hrest
    exact ⟨k, v, hp, after, hrest.1 ▸ hop'⟩

/-- At the end of one program, the other comes to its end. -/
theorem exists_path_to_end (same : m.program.opcodes = q.opcodes)
    (related : State.SameRank m.program q s u) (hend : m.finished s = true) :
    ∃ k v, (m.running q).Path u k v ∧ (m.running q).finished v = true ∧
      State.SameRank m.program q s v := by
  obtain ⟨k, v, hp, after, hrest, hend' | ⟨op', hop'⟩⟩ := exists_path_to_rest same related
  · exact ⟨k, v, hp, hend', after⟩
  · rw [Program.opcodesFrom_of_end (finished_iff.mp hend),
      Program.opcodesFrom_of_opcode hop'] at hrest
    cases hrest

/-- A common opcode keeps machines in step that run programs with the same opcodes. -/
theorem inStep_of_sameRank (same : m.program.opcodes = q.opcodes) (safe : m.Sheltered s)
    (related : State.SameRank m.program q s u) (hs : m.program.opcode? s.ip = some op)
    (hu : q.opcode? u.ip = some op) :
    InStep Eq m.program.rank q.rank s u (m.step s) ((m.running q).step u) := by
  have hplace := related.place
  have hnext : m.program.rank (s.ip + 1) = q.rank (u.ip + 1) := by
    rw [Program.rank_of_opcode hs, Program.rank_of_opcode hu, hplace]
  exact inStep_of_opcode (Tape.respected_eq m.policy) safe related hs hu hnext
    fun _ => Program.rank_loopEnd? same hs hu hplace

/-- A program is tracked by every program with the same opcodes. -/
theorem tracks_of_opcodes (same : m.program.opcodes = q.opcodes) :
    (m.running q).Tracks m (State.SameRank m.program q) (Fault.SameOccurrence m.program q) where
  step {s t u} valid related hstep := by
    have hlt := unfinished_iff.mp (unfinished_of_step hstep)
    cases hop : m.program.opcode? s.ip with
    | none =>
        rw [step_inert hlt hop] at hstep
        cases hstep
        refine ⟨0, u, .start, ?_, related.loops, related.scene⟩
        exact (Program.rank_of_inert hop).trans related.place
    | some op =>
        obtain ⟨k, v, hp, before, hop'⟩ := exists_path_to_same_opcode same related hop
        have inStep := inStep_of_sameRank same valid.sheltered before hop hop'
        rw [hstep] at inStep
        generalize hv : (m.running q).step v = r at inStep
        cases inStep with
        | moved after => exact ⟨k + 1, _, hp.next hv, after⟩
  finish {s u} _ related hend := exists_path_to_end same related hend
  fail {s u f} valid related hu hstep := by
    cases hop : m.program.opcode? s.ip with
    | none =>
        rw [step_inert (unfinished_iff.mp hu) hop] at hstep
        cases hstep
    | some op =>
        obtain ⟨k, v, hp, before, hop'⟩ := exists_path_to_same_opcode same related hop
        have inStep := inStep_of_sameRank same valid.sheltered before hop hop'
        rw [hstep] at inStep
        generalize hv : (m.running q).step v = r at inStep
        cases inStep with
        | failed here =>
            have hlt : v.ip < q.size := Program.lt_size_of_opcode? hop'
            exact ⟨k, v, _, hp, unfinished_iff.mpr hlt, hv,
              ⟨_, _, op, here, rfl, hop, hop', before.place⟩, before⟩

end Machine

/-- Two programs run alike from a state: both complete and show the same, or both fail in the
same way at the same occurrence of an opcode, or both go on forever. -/
def Program.SameRuns (policy : Policy) (eof : EndOfInput) (start : State) (p q : Program) :
    Prop :=
  Machine.RunAlike { program := p, policy, eof } { program := q, policy, eof }
    State.ShowsAs (Fault.SameOccurrence p q) start start

theorem Program.sameRuns_of_opcodes {p q : Program} (same : p.opcodes = q.opcodes)
    (policy : Policy) (eof : EndOfInput) {cells : Nat} (pos : 0 < cells) (input : List UInt8) :
    SameRuns policy eof (State.initial cells input) p q := by
  let m : Machine := { program := p, policy, eof }
  let n : Machine := { program := q, policy, eof }
  have there : n.Tracks m (State.SameRank p q) (Fault.SameOccurrence p q) :=
    Machine.tracks_of_opcodes (m := m) same
  have back : m.Tracks n (State.SameRank q p) (Fault.SameOccurrence q p) :=
    Machine.tracks_of_opcodes (m := n) same.symm
  have related : ∀ p q, State.SameRank p q (State.initial cells input)
      (State.initial cells input) := fun _ _ => ⟨rfl, rfl, rfl, rfl, rfl⟩
  exact there.runAlike back (Machine.valid_initial m pos input) (Machine.valid_initial n pos input)
    (related p q) (related q p) State.Alike.showsAs

/-- Programs with the same opcodes in the same order run alike, wherever their inert bytes
stand. So a packed program runs as it does after it was written as text and assembled again,
and a list of half bytes runs as it does after it was packed, its padding included. -/
theorem inert_bytes_change_nothing {size : Int} {cells : Nat}
    (valid : StepSize.ofInt size = .ok cells) (policy : Policy) (eof : EndOfInput)
    (input : List UInt8) :
    let start := State.initial cells input
    (∀ p q : Program, p.opcodes = q.opcodes → Program.SameRuns policy eof start p q) ∧
    (∀ bytes, Program.SameRuns policy eof start
      (Packed.unpack (Mnemonic.assemble (Mnemonic.disassemble bytes))) (Packed.unpack bytes)) ∧
    (∀ values : List Int, (∀ v ∈ values, Packed.fits v = true) →
      ∃ bytes, Packed.pack values = .ok bytes ∧
        Program.SameRuns policy eof start (Packed.unpack bytes)
          (values.map fun v => UInt8.ofNat v.toNat).toArray) := by
  intro start
  have pos : 0 < cells := (StepSize.ofInt_eq_ok_iff.mp valid).2.1
  have alike : ∀ p q : Program, p.opcodes = q.opcodes →
      Program.SameRuns policy eof start p q :=
    fun _ _ same => Program.sameRuns_of_opcodes same policy eof pos input
  refine ⟨alike, ?_, ?_⟩
  · intro bytes
    exact alike _ _ (Mnemonic.opcodes_reassembled bytes)
  · intro values fit
    refine ⟨_, Packed.pack_of_fits fit, alike _ _ ?_⟩
    apply Packed.opcodes_unpack_join
    intro v hv
    obtain ⟨value, hvalue, rfl⟩ := List.mem_map.mp hv
    exact Packed.lt_of_fits (fit value hvalue)

/-- Three inert bytes in `+[>]<<+` change nothing, under the policy that makes it fail at its
last instruction; neither does the padding that packs `+[]` into two bytes. -/
theorem inert_bytes_change_no_failing_run :
    let start := State.initial 1 []
    Program.SameRuns .strict .zero start #[2, 9, 4, 3, 255, 1, 6, 6, 12, 2]
      #[2, 4, 3, 1, 6, 6, 2] ∧
    ∃ bytes, Packed.pack [2, 4, 1] = .ok bytes ∧
      Program.SameRuns .strict .zero start (Packed.unpack bytes) #[2, 4, 1] := by
  intro start
  have valid : StepSize.ofInt 1 = .ok 1 := rfl
  obtain ⟨alike, -, packed⟩ := inert_bytes_change_nothing valid .strict .zero []
  exact ⟨alike _ _ (by decide), packed [2, 4, 1] (by decide)⟩

end NibTape

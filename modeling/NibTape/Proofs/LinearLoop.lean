import Mathlib.Data.Int.ModEq
import NibTape.Proofs.StepSize
import NibTape.Proofs.Structured
import NibTape.Proofs.Walk

/-!
# Linear loops multiply

A loop is linear if its body has no brackets, writes or reads and comes back to the cell that it
started from. One round of it adds to each cell what the body gains there, as often as the body
comes by, and if the loop cell is one less after each round, modulo 256, the number of rounds is
the value of that cell. So the loop adds to each other cell that value times its gain, modulo 256,
and leaves zero in its own cell.

The gains are told by the displacement from the loop cell, so they do not depend on where the loop
runs. A body with another behind it gains what both do, where the second starts as far away as the
first has moved. This one rule for texts is the rule for tapes too: what a text does to a tape is
to move the cursor, to add the gains and perhaps to append zeros. The text of a body and then the
rounds of a loop are put together by it.

Both policies are alike here: a cursor that is on a cell and stays between the first cell and its
last position is on a cell after every move.
-/

namespace NibTape

def Opcode.gain : Opcode → Int
  | incrVal => 1
  | decrVal => -1
  | write | loopEnd | incrPtr | loopStart | decrPtr | read => 0

namespace Linear

/-- Whether a byte may stand in the body of a linear loop: any move, any change of a cell by one,
and inert bytes. -/
def admits (b : UInt8) : Bool :=
  match Opcode.ofByte? b with
  | some .incrPtr | some .decrPtr | some .incrVal | some .decrVal | none => true
  | some .write | some .read | some .loopStart | some .loopEnd => false

/-- How far a byte moves the cursor to the right. -/
def offset (b : UInt8) : Int := ((Opcode.ofByte? b).map Opcode.shift).getD 0

def gain (b : UInt8) : Int := ((Opcode.ofByte? b).map Opcode.gain).getD 0

/-- How far a text moves the cursor to the right. -/
def displacement (text : List UInt8) : Int := (text.map offset).sum

/-- How much a text adds to the cell at a displacement from where it starts. -/
def delta : List UInt8 → Int → Int
  | [], _ => 0
  | b :: text, d => (if d = 0 then gain b else 0) + delta text (d - offset b)

/-- From a position on, every beginning of a text leaves the cursor on one of its positions. -/
def Fits (position : Int) (text : List UInt8) : Prop :=
  ∀ k ≤ text.length, 0 ≤ position + displacement (text.take k) ∧
    position + displacement (text.take k) ≤ 0xFFFFFFFF

instance (position : Int) (text : List UInt8) : Decidable (Fits position text) :=
  inferInstanceAs (Decidable (∀ k ≤ text.length, 0 ≤ position + displacement (text.take k) ∧
    position + displacement (text.take k) ≤ 0xFFFFFFFF))

variable {b : UInt8} {text : List UInt8} {position : Int}

theorem displacement_cons (b : UInt8) (text : List UInt8) :
    displacement (b :: text) = offset b + displacement text := rfl

@[simp] theorem offset_byte (op : Opcode) : offset op.byte = op.shift := by simp [offset]

@[simp] theorem gain_byte (op : Opcode) : gain op.byte = op.gain := by simp [gain]

theorem offset_eq (b : UInt8) :
    offset b = (if b == Opcode.incrPtr.byte then 1 else 0) -
      (if b == Opcode.decrPtr.byte then 1 else 0) := by
  unfold offset
  cases hop : Opcode.ofByte? b with
  | none =>
      have hne : ∀ op : Opcode, (b == op.byte) = false := by
        intro op
        rw [beq_eq_false_iff_ne]
        rintro rfl
        simp at hop
      simp [hne]
  | some op =>
      rw [Opcode.byte_of_ofByte? hop]
      cases op <;> rfl

/-- The displacement is told by the number of moves in each direction. -/
theorem displacement_eq (text : List UInt8) :
    displacement text =
      text.count Opcode.incrPtr.byte - text.count Opcode.decrPtr.byte := by
  induction text with
  | nil => rfl
  | cons b text ih =>
      rw [displacement_cons, ih, offset_eq, List.count_cons, List.count_cons]
      push_cast
      omega

theorem Fits.start (fits : Fits position text) : 0 ≤ position ∧ position ≤ 0xFFFFFFFF := by
  have hzero := fits 0 (Nat.zero_le _)
  simpa [displacement] using hzero

theorem Fits.tail (fits : Fits position (b :: text)) : Fits (position + offset b) text := by
  intro k hk
  have hnext := fits (k + 1) (Nat.succ_le_succ hk)
  rw [List.take_succ_cons, displacement_cons] at hnext
  omega

theorem plain_of_admits (h : admits b = true) : isPlain b = true := by
  rw [isPlain_iff]
  intro op hop
  unfold admits at h
  rw [hop] at h
  cases op <;> first | rfl | cases h

end Linear

/-! ### What a text does to a tape -/

/-- `u` is `t` after its cursor was moved and something was added to its cells, told by the
displacement from where the cursor was; new cells were zero. -/
structure Tape.Changed (t u : Tape) (moved : Int) (gained : Int → Int) : Prop where
  contained : u.Contained
  cursor : (u.cursor : Int) = t.cursor + moved
  length : t.length ≤ u.length
  value : ∀ i : Nat,
    ((u.value i).toNat : Int) ≡ (t.value i).toNat + gained (i - t.cursor) [ZMOD 256]

namespace Tape

variable {t u v : Tape} {moved moved' : Int} {gained gained' : Int → Int}

theorem Contained.unchanged (h : t.Contained) : t.Changed t 0 fun _ => 0 :=
  ⟨h, (Int.add_zero _).symm, Nat.le_refl _, fun _ => by rw [Int.add_zero]⟩

/-- The second change starts as far away as the first has moved. -/
theorem Changed.trans (first : t.Changed u moved gained) (second : u.Changed v moved' gained') :
    t.Changed v (moved + moved') fun d => gained d + gained' (d - moved) := by
  refine ⟨second.contained, ?_, Nat.le_trans first.length second.length, ?_⟩
  · rw [second.cursor, first.cursor, Int.add_assoc]
  · intro i
    have hplace : (i : Int) - u.cursor = i - t.cursor - moved := by
      rw [first.cursor]
      omega
    have both := (second.value i).trans ((first.value i).add_right _)
    rwa [hplace, Int.add_assoc] at both

/-- A cell as it is seen from outside, with zero for a cell that is not there. -/
theorem Contained.getD_cell? (h : t.Contained) (i : Nat) : (t.cell? i).getD 0 = t.value i := by
  unfold cell?
  split
  · rfl
  · rename_i houtside
    exact (h.blank i (Nat.le_of_not_lt houtside)).symm

theorem Contained.changed_advance (h : t.Contained) (hlt : t.cursor + 1 < span) :
    t.Changed t.advance 1 fun _ => 0 := by
  refine ⟨h.advance, ?_, ?_, fun i => ?_⟩
  · rw [cursor_advance, Nat.mod_eq_of_lt hlt]
    rfl
  · rw [length_advance]
    split <;> omega
  · rw [value_advance, Int.add_zero]

theorem Contained.changed_retreat (h : t.Contained) (pos : 0 < t.cursor)
    (hle : t.cursor ≤ span) (policy : Policy) :
    t.Changed (policy.retreat t) (-1) fun _ => 0 := by
  rw [policy.retreat_of_pos pos hle]
  refine ⟨⟨h.stepSize, ?_, h.blank⟩, ?_, Nat.le_refl _, fun i => ?_⟩
  · have hcursor := h.cursor
    simp only [cursor_setCursor, length_setCursor]
    omega
  · rw [cursor_setCursor]
    omega
  · rw [value_setCursor, Int.add_zero]

theorem Contained.changed_set (h : t.Contained) {value : UInt8} {more : Int}
    (hvalue : (value.toNat : Int) ≡ (t.value t.cursor).toNat + more [ZMOD 256]) :
    t.Changed (t.set value) 0 fun d => if d = 0 then more else 0 := by
  refine ⟨h.set value, (Int.add_zero _).symm, Nat.le_refl _, fun i => ?_⟩
  rw [value_set]
  by_cases hi : i = t.cursor
  · have hd : (i : Int) - t.cursor = 0 := by omega
    rw [if_pos hi, if_pos hd, hi]
    exact hvalue
  · have hd : (i : Int) - t.cursor ≠ 0 := by omega
    rw [if_neg hi, if_neg hd, Int.add_zero]

end Tape

theorem modEq_add_one (x : UInt8) : ((x + 1).toNat : Int) ≡ x.toNat + 1 [ZMOD 256] := by
  have hone : (1 : UInt8).toNat = 1 := rfl
  rw [UInt8.toNat_add, hone]
  unfold Int.ModEq
  omega

theorem modEq_sub_one (x : UInt8) : ((x - 1).toNat : Int) ≡ x.toNat + -1 [ZMOD 256] := by
  have hone : (1 : UInt8).toNat = 1 := rfl
  rw [UInt8.toNat_sub, hone]
  unfold Int.ModEq
  omega

/-! ### What a linear text does in a program -/

/-- `t` has the loops and the input of `s` and has exchanged nothing more. -/
structure State.Quiet (s t : State) : Prop where
  loops : t.loops.toList = s.loops.toList
  events : t.events = s.events
  unread : t.unread = s.unread

theorem State.Quiet.trans {s t u : State} (first : s.Quiet t) (second : t.Quiet u) :
    s.Quiet u :=
  ⟨second.loops.trans first.loops, second.events.trans first.events,
    second.unread.trans first.unread⟩

namespace Scene

open Linear

variable {policy : Policy} {eof : EndOfInput} {op : Opcode} {w : Scene}

/-- The four instructions of linear texts. -/
theorem changed_obey (h : admits op.byte = true) (contained : w.tape.Contained)
    (low : 0 ≤ w.tape.cursor + op.shift) (high : w.tape.cursor + op.shift ≤ 0xFFFFFFFF)
    (hle : w.tape.cursor ≤ Tape.span) :
    w.tape.Changed (w.obey policy eof op).tape op.shift fun d => if d = 0 then op.gain else 0 := by
  cases op with
  | incrPtr =>
      have hlt : w.tape.cursor + 1 < Tape.span := by
        simp only [Opcode.shift] at high
        unfold Tape.span
        omega
      simp only [Opcode.gain, ite_self]
      exact contained.changed_advance hlt
  | decrPtr =>
      simp only [Opcode.shift] at low
      simp only [Opcode.gain, ite_self]
      exact contained.changed_retreat (by omega) hle policy
  | incrVal => exact contained.changed_set (modEq_add_one _)
  | decrVal => exact contained.changed_set (modEq_sub_one _)
  | _ => cases h

end Scene

namespace Program

variable {p : Program} {i d : Nat} {text : List UInt8}

/-- A scan passes over plain bytes. -/
theorem scan?_plain (h : p.Holds i text) (plain : ∀ b ∈ text, isPlain b = true) :
    p.scan? i d = p.scan? (i + text.length) d := by
  induction text generalizing i with
  | nil => rfl
  | cons b text ih =>
      have hop := opcode?_eq_of_getElem? h.head
      obtain ⟨hs, he⟩ := not_bracket (p := p) (i := i) fun op h =>
        isPlain_iff.mp (plain b List.mem_cons_self) op (hop.symm.trans h)
      rw [scan?_of_other hs he, ih h.tail fun b hb => plain b (List.mem_cons_of_mem _ hb),
        List.length_cons, Nat.add_assoc, Nat.add_comm 1]

end Program

namespace Machine

open Linear

variable {m : Machine} {s t u : State} {op : Opcode} {b : UInt8} {text body : List UInt8}
variable {n k stop : Nat}

/-- The first `n` steps from `s` are all made in front of the position `stop` and lead to `t`. -/
def PathBefore (m : Machine) (stop : Nat) (s : State) (n : Nat) (t : State) : Prop :=
  m.Path s n t ∧ ∀ k < n, ∀ u, m.Path s k u → u.ip < stop

namespace PathBefore

theorem start (m : Machine) (stop : Nat) (s : State) : m.PathBefore stop s 0 s :=
  ⟨.start, fun _ hk => absurd hk (Nat.not_lt_zero _)⟩

theorem cons (hlt : s.ip < stop) (hstep : m.step s = .ok u) (rest : m.PathBefore stop u n t) :
    m.PathBefore stop s (n + 1) t := by
  refine ⟨rest.1.cons hstep, ?_⟩
  intro k hk v hv
  cases k with
  | zero =>
      rw [Path.zero_iff.mp hv]
      exact hlt
  | succ k =>
      obtain ⟨u', hu', hrest⟩ := hv.uncons
      rw [hstep] at hu'
      cases hu'
      exact rest.2 k (Nat.lt_of_succ_lt_succ hk) v hrest

theorem append (first : m.PathBefore stop s n u) (rest : m.PathBefore stop u k t) :
    m.PathBefore stop s (n + k) t := by
  refine ⟨first.1.append rest.1, ?_⟩
  intro j hj v hv
  rcases Nat.lt_or_ge j n with hlt | hge
  · exact first.2 j hlt v hv
  · exact rest.2 (j - n) (by omega) v (first.1.drop hv hge)

end PathBefore

/-- The four instructions of linear texts work on the tape alone. -/
theorem quiet_of_step (hop : m.program.opcode? s.ip = some op) (h : admits op.byte = true)
    (hstep : m.step s = .ok t) (follows : s.Follows t (s.scene.obey m.policy m.eof op)) :
    s.Quiet t := by
  have hexchange : m.exchange s = [] := by
    rw [exchange, hop]
    cases op <;> first | rfl | cases h
  refine ⟨by rw [follows.loops], ?_, ?_⟩
  · rw [events_of_step hstep, hexchange, List.append_nil]
  · rw [← State.scene_unread, follows.scene, Scene.unread_obey, if_neg, State.scene_unread]
    rintro rfl
    cases h

/-- A byte of a linear text makes a step. -/
theorem step_linear (hb : m.program[s.ip]? = some b) (h : admits b = true)
    (contained : s.tape.Contained) (fits : Fits s.tape.cursor (b :: text)) :
    ∃ t, m.step s = .ok t ∧ t.ip = s.ip + 1 ∧ s.Quiet t ∧
      s.tape.Changed t.tape (offset b) fun d => if d = 0 then gain b else 0 := by
  have hop := Program.opcode?_eq_of_getElem? hb
  cases hbyte : Opcode.ofByte? b with
  | none =>
      have hlt := (Array.getElem?_eq_some_iff.mp hb).1
      refine ⟨_, step_inert hlt (hop.trans hbyte), rfl, ⟨rfl, rfl, rfl⟩, ?_⟩
      simp only [offset, gain, hbyte, Option.map_none, Option.getD_none, ite_self]
      exact contained.unchanged
  | some op =>
      obtain rfl := Opcode.byte_of_ofByte? hbyte
      have plain := isPlain_iff.mp (plain_of_admits h) op hbyte
      obtain ⟨t, hstep, follows⟩ :=
        step_simple (hop.trans hbyte) plain fun _ => contained.cursor
      have hnext := fits.tail.start
      have hle : s.tape.cursor ≤ Tape.span := by
        have hstart := fits.start
        unfold Tape.span
        omega
      have htape : t.tape = (s.scene.obey m.policy m.eof op).tape := by
        rw [← State.scene_tape, follows.scene]
      refine ⟨t, hstep, follows.ip, quiet_of_step (hop.trans hbyte) h hstep follows, ?_⟩
      rw [offset_byte] at hnext
      rw [htape, offset_byte, gain_byte]
      exact Scene.changed_obey (w := s.scene) h contained hnext.1 hnext.2 hle

/-- A linear text takes one step for each byte. -/
theorem path_linear (holds : m.program.Holds s.ip text) (h : ∀ b ∈ text, admits b = true)
    (contained : s.tape.Contained) (fits : Fits s.tape.cursor text)
    (hstop : s.ip + text.length ≤ stop) :
    ∃ t, m.PathBefore stop s text.length t ∧ t.ip = s.ip + text.length ∧ s.Quiet t ∧
      s.tape.Changed t.tape (displacement text) (delta text) := by
  induction text generalizing s with
  | nil => exact ⟨s, .start m stop s, rfl, ⟨rfl, rfl, rfl⟩, contained.unchanged⟩
  | cons b text ih =>
      rw [List.length_cons] at hstop
      obtain ⟨u, hstep, hip, quiet, changed⟩ :=
        step_linear holds.head (h b List.mem_cons_self) contained fits
      obtain ⟨t, hp, hend, quiet', changed'⟩ := ih (s := u)
        (by rw [hip]; exact holds.tail) (fun b hb => h b (List.mem_cons_of_mem _ hb))
        changed.contained (by rw [changed.cursor]; exact fits.tail) (by omega)
      refine ⟨t, hp.cons (by omega) hstep, ?_, quiet.trans quiet', changed.trans changed'⟩
      rw [hend, hip, List.length_cons]
      omega

/-- The text of a loop with a linear body stands in the program at the position of a state, and
the body comes back to its cell without leaving the positions of the cursor. -/
structure AtLinearLoop (m : Machine) (s : State) (body : List UInt8) : Prop where
  text : m.program.Holds s.ip (Opcode.loopStart.byte :: (body ++ [Opcode.loopEnd.byte]))
  linear : ∀ b ∈ body, admits b = true
  returns : displacement body = 0
  contained : s.tape.Contained
  fits : Fits s.tape.cursor body

namespace AtLinearLoop

/-- The scan finds the loop end right behind the body. -/
theorem loopEnd?_eq (loop : m.AtLinearLoop s body) :
    m.program.loopEnd? s.ip = some (s.ip + body.length + 1) := by
  have hend : m.program.opcode? (s.ip + 1 + body.length) = some .loopEnd :=
    loop.text.tail.right.opcode?
  rw [Program.loopEnd?_eq_scan?, Program.scan?_plain loop.text.tail.left
    fun b hb => plain_of_admits (loop.linear b hb), Program.scan?_of_end_zero hend,
    Nat.add_right_comm]

/-- Where the cell is not zero, one round comes back to the loop start. -/
theorem round (loop : m.AtLinearLoop s body) (hcell : s.tape.value s.tape.cursor ≠ 0) :
    ∃ t, m.PathBefore (s.ip + body.length + 2) s (body.length + 2) t ∧ s.Quiet t ∧
      s.tape.Changed t.tape 0 (delta body) ∧ m.AtLinearLoop t body ∧ t.ip = s.ip := by
  have hcurrent := Tape.current?_of_lt loop.contained.cursor
  have henter := step_enter loop.text.opcode? hcurrent hcell
  obtain ⟨_, hopen⟩ := s.openLoop_eq s.ip
  have hbody : m.program.Holds (s.openLoop s.ip).next.ip body := by
    rw [State.ip_next, State.ip_openLoop]
    exact loop.text.tail.left
  have htape : (s.openLoop s.ip).next.tape = s.tape := by rw [hopen]; rfl
  have hstop : (s.openLoop s.ip).next.ip + body.length ≤ s.ip + body.length + 2 := by
    rw [State.ip_next, State.ip_openLoop]
    omega
  obtain ⟨u, hp, hip, quiet, changed⟩ :=
    path_linear hbody loop.linear (htape ▸ loop.contained) (htape ▸ loop.fits) hstop
  rw [htape] at changed
  -- the body has left the loop start on top of the stack, so the loop end goes back to it
  have hloops : u.loops.toList = s.loops.toList ++ [s.ip] := by
    rw [quiet.loops, State.loops_next, State.loops_openLoop, LoopStack.toList_push]
  obtain ⟨rest, hpop, hrest⟩ := LoopStack.pop?_of_toList hloops
  rw [State.ip_next, State.ip_openLoop] at hip
  have hend : m.program.opcode? u.ip = some .loopEnd := by
    rw [hip]
    exact loop.text.tail.right.opcode?
  rw [loop.returns] at changed
  have hcursor : (u.tape.cursor : Int) = s.tape.cursor := changed.cursor.trans (Int.add_zero _)
  refine ⟨_, .cons (by omega) henter (hp.append (.cons (by omega) (step_back hend hpop)
    (.start m _ _))), ⟨hrest, ?_, ?_⟩, changed, ?_, rfl⟩
  · exact quiet.events.trans (s.events_openLoop s.ip)
  · rw [hopen] at quiet
    exact quiet.unread
  · exact ⟨loop.text, loop.linear, loop.returns, changed.contained, hcursor ▸ loop.fits⟩

/-- The loop makes as many rounds as its cell says, and its gains come to that many times those
of the body. -/
theorem path (loop : m.AtLinearLoop s body) (down : delta body 0 ≡ -1 [ZMOD 256])
    (hcell : (s.tape.value s.tape.cursor).toNat = n) :
    ∃ t, m.PathBefore (s.ip + body.length + 2) s (n * (body.length + 2) + 1) t ∧ s.Quiet t ∧
      s.tape.Changed t.tape 0 (fun d => n * delta body d) ∧ t.ip = s.ip + body.length + 2 := by
  -- the cell tells how many rounds are still to come, from whatever state the loop is looked at
  induction n generalizing s with
  | zero =>
      have hcurrent := Tape.current?_of_lt loop.contained.cursor
      have hzero : s.tape.value s.tape.cursor = 0 := UInt8.toNat_inj.mp hcell
      rw [hzero] at hcurrent
      rw [Nat.zero_mul]
      have hskip := step_skip loop.text.opcode? hcurrent loop.loopEnd?_eq
      refine ⟨s.jump (s.ip + body.length + 2), .cons (by omega) hskip (.start m _ _),
        ⟨rfl, rfl, rfl⟩, ?_, rfl⟩
      simp only [Nat.cast_zero, Int.zero_mul]
      exact loop.contained.unchanged
  | succ n ih =>
      have hne : s.tape.value s.tape.cursor ≠ 0 := by
        intro hzero
        rw [hzero] at hcell
        cases hcell
      obtain ⟨u, hp, quiet, changed, again, hip⟩ := loop.round hne
      have hcursor : u.tape.cursor = s.tape.cursor := by
        have := changed.cursor
        omega
      have hnext : (u.tape.value u.tape.cursor).toNat = n := by
        have hvalue := changed.value s.tape.cursor
        rw [Int.sub_self, hcell] at hvalue
        have hless := hvalue.trans (down.add_left _)
        have hold := (s.tape.value s.tape.cursor).toNat_lt
        have hnew := (u.tape.value s.tape.cursor).toNat_lt
        unfold Int.ModEq at hless
        rw [hcursor]
        omega
      obtain ⟨t, hp', quiet', changed', hend⟩ := ih again hnext
      rw [hip] at hp' hend
      have hgain : (fun d => delta body d + n * delta body (d - 0)) =
          fun d => ((n + 1 : Nat) : Int) * delta body d := by
        funext d
        rw [Int.sub_zero]
        push_cast
        rw [Int.add_mul, Int.one_mul, Int.add_comm]
      refine ⟨t, ?_, quiet.trans quiet', ?_, hend⟩
      · have hcount : (n + 1) * (body.length + 2) + 1 =
            body.length + 2 + (n * (body.length + 2) + 1) := by
          rw [Nat.succ_mul]
          omega
        rw [hcount]
        exact hp.append hp'
      · rw [← hgain]
        exact changed.trans changed'

end AtLinearLoop

/-- At a loop start in any program, under either policy and with any step size: let the body of
the loop consist of moves, changes by one and inert bytes, with as many moves right as moves left,
and let the loop cell become one less, modulo 256, by each round. If the cursor is on a cell with
value `v` and none of the moves would leave its positions, then after `v` rounds, and one more
look at the loop start, the machine comes to the position behind the loop end for the first time.
The open loops, the unread input and the exchanges are those of before. The cursor is on the same
cell, which is zero, and each other cell has got more by `v` times the gain of the body at its
displacement, modulo 256; a cell that is not there counts as zero. -/
theorem linear_loops_multiply (m : Machine) (s : State) (body : List UInt8) (v : UInt8)
    (text : m.program.Holds s.ip (Opcode.loopStart.byte :: (body ++ [Opcode.loopEnd.byte])))
    (linear : ∀ b ∈ body, admits b = true)
    (returns : body.count Opcode.incrPtr.byte = body.count Opcode.decrPtr.byte)
    (down : delta body 0 ≡ -1 [ZMOD 256])
    (contained : s.tape.Contained) (cell : s.tape.current? = some v)
    (fits : Fits s.tape.cursor body) :
    let steps := v.toNat * (body.length + 2) + 1
    ∃ t, m.Path s steps t ∧ t.ip = s.ip + body.length + 2 ∧
      (∀ k < steps, ∀ u, m.Path s k u → u.ip < t.ip) ∧
      t.loops.toList = s.loops.toList ∧ t.events = s.events ∧ t.unread = s.unread ∧
      t.tape.cursor = s.tape.cursor ∧ s.tape.length ≤ t.tape.length ∧
      t.tape.cell? s.tape.cursor = some 0 ∧
      ∀ i, i ≠ s.tape.cursor →
        (((t.tape.cell? i).getD 0).toNat : Int) =
          (((s.tape.cell? i).getD 0).toNat + v.toNat * delta body (i - s.tape.cursor)) % 256 := by
  intro steps
  have loop : m.AtLinearLoop s body :=
    ⟨text, linear, by rw [displacement_eq, returns, Int.sub_self], contained, fits⟩
  have hv : s.tape.value s.tape.cursor = v := (Tape.current?_eq_some_iff.mp cell).2
  obtain ⟨t, ⟨hp, before⟩, quiet, changed, hip⟩ := loop.path down (congrArg UInt8.toNat hv)
  have hcursor : t.tape.cursor = s.tape.cursor := by
    have := changed.cursor
    omega
  refine ⟨t, hp, hip, hip ▸ before, quiet.loops, quiet.events, quiet.unread, hcursor,
    changed.length, ?_, ?_⟩
  · have hvalue := changed.value s.tape.cursor
    rw [Int.sub_self, hv] at hvalue
    have hless := hvalue.trans ((down.mul_left _).add_left _)
    have hsmall := (t.tape.value s.tape.cursor).toNat_lt
    have hzero : t.tape.value s.tape.cursor = 0 := by
      apply UInt8.toNat_inj.mp
      unfold Int.ModEq at hless
      change _ = 0
      omega
    have hlt : s.tape.cursor < t.tape.length := hcursor ▸ changed.contained.cursor
    rw [Tape.cell?, if_pos hlt, hzero]
  · intro i _
    rw [changed.contained.getD_cell?, contained.getD_cell?]
    have hvalue := changed.value i
    have := (t.tape.value i).toNat_lt
    unfold Int.ModEq at hvalue
    omega

/-- With three in its cell, `[>++<-]` takes 22 steps and leaves six in the next cell, which was
not there before. -/
theorem linear_loops_multiply_by_two :
    let m : Machine := { program := #[4, 3, 2, 2, 6, 5, 1], policy := .strict, eof := .zero }
    let s : State := { State.initial 1 [] with tape := (Tape.blank 1).set 3 }
    ∃ t, m.Path s 22 t ∧ t.ip = 7 ∧ t.tape.cursor = 0 ∧ t.tape.cell? 0 = some 0 ∧
      t.tape.cell? 1 = some 6 := by
  intro m s
  have contained : s.tape.Contained := (Tape.contained_blank Nat.zero_lt_one).set 3
  have linear : ∀ b ∈ [3, 2, 2, 6, 5], admits b = true := List.all_eq_true.mp rfl
  obtain ⟨t, hp, hip, -, -, -, -, hcursor, -, hzero, hcells⟩ :=
    linear_loops_multiply m s [3, 2, 2, 6, 5] 3 m.program.holds_zero linear (by decide)
      (by decide) contained rfl (by decide)
  refine ⟨t, hp, hip, hcursor, hzero, ?_⟩
  have hsix : (((t.tape.cell? 1).getD 0).toNat : Int) = 6 := hcells 1 (by decide)
  cases hcell : t.tape.cell? 1 with
  | none =>
      rw [hcell] at hsix
      cases hsix
  | some b =>
      rw [hcell] at hsix
      exact congrArg some (UInt8.toNat_inj.mp (Int.ofNat.inj hsix))

end Machine

end NibTape

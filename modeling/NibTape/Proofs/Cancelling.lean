import NibTape.Proofs.Insertion

/-!
# Increments and decrements cancel

An increment and a decrement next to each other, in either order, leave a cell as it was, also
where its value wraps around. If accesses are not checked, the pair can be inserted anywhere in a
program: it is executed as often as control comes by, and no loop starts or ends in it, so that
no jump leads into it.

The tape is not literally the same behind the pair, because a cell that was never written has been
written now. Tapes are therefore compared by what can be seen of them.
-/

namespace NibTape

/-- Two opcodes one of which undoes the other. -/
inductive Opcode.Cancels : Opcode → Opcode → Prop where
  | increment : Cancels .incrVal .decrVal
  | decrement : Cancels .decrVal .incrVal

structure Tape.SameCells (t u : Tape) : Prop where
  stepSize : t.stepSize = u.stepSize
  length : t.length = u.length
  cursor : t.cursor = u.cursor
  value : ∀ i, t.value i = u.value i

/-- Two states in which a run has left the same: each cell and the length of the tape, the cursor,
the number of open loops, the unread input and the output. -/
structure State.SameResult (s u : State) : Prop where
  length : s.tape.length = u.tape.length
  cursor : s.tape.cursor = u.tape.cursor
  cells : ∀ i, s.tape.cell? i = u.tape.cell? i
  depth : s.loops.depth = u.loops.depth
  unread : s.unread = u.unread
  output : s.output = u.output

/-- Both faults report a loop start of a program without a loop end; in the second program `n`
bytes of code have been put in front of position `k`. -/
def Fault.SameLoop (p : Program) (k n : Nat) (f g : Fault) : Prop :=
  ∃ a, p.opcode? a = some .loopStart ∧ f = .unterminatedLoop a ∧
    g = .unterminatedLoop (Program.moved k n a)

namespace Tape.SameCells

variable {t u v : Tape}

theorem refl (t : Tape) : t.SameCells t := ⟨rfl, rfl, rfl, fun _ => rfl⟩

theorem trans (h : t.SameCells u) (h' : u.SameCells v) : t.SameCells v where
  stepSize := h.stepSize.trans h'.stepSize
  length := h.length.trans h'.length
  cursor := h.cursor.trans h'.cursor
  value i := (h.value i).trans (h'.value i)

/-- Whatever is stored under the cursor, storing the old value again brings back the old cells. -/
theorem set_set (t : Tape) (b : UInt8) : t.SameCells ((t.set b).set (t.value t.cursor)) := by
  refine ⟨rfl, rfl, rfl, fun i => ?_⟩
  rw [value_set, value_set]
  by_cases hi : i = t.cursor
  · rw [hi]
    exact (if_pos rfl).symm
  · rw [if_neg hi]
    exact (if_neg hi).symm

end Tape.SameCells

theorem Tape.respected_sameCells (policy : Policy) : Respected policy SameCells where
  cell h := by rw [h.value, h.cursor]
  access {t u} h := by
    rcases Nat.lt_or_ge t.cursor t.length with hlt | hge
    · exact .inl ⟨hlt, by rw [← h.cursor, ← h.length]; exact hlt⟩
    · exact .inr ⟨hge, h.cursor.symm, h.length.symm⟩
  advance h := by
    have hgrows := congrArg₂ (fun c l => (c + 1) % span == l) h.cursor h.length
    refine ⟨?_, ?_, ?_, fun i => ?_⟩
    · rw [stepSize_advance, stepSize_advance, h.stepSize]
    · rw [length_advance, length_advance, growsOnAdvance, growsOnAdvance, hgrows, h.length,
        h.stepSize]
    · rw [cursor_advance, cursor_advance, h.cursor]
    · rw [value_advance, value_advance, h.value]
  retreat h := by
    refine ⟨?_, ?_, ?_, fun i => ?_⟩
    · rw [Policy.stepSize_retreat, Policy.stepSize_retreat, h.stepSize]
    · rw [Policy.length_retreat, Policy.length_retreat, h.length]
    · cases policy with
      | permissive => simp only [Policy.cursor_retreat_permissive, h.cursor]
      | strict => simp only [Policy.retreat, cursor_retreat, h.cursor]
    · rw [Policy.value_retreat, Policy.value_retreat, h.value]
  set v h := by
    refine ⟨h.stepSize, h.length, h.cursor, fun i => ?_⟩
    rw [value_set, value_set, h.cursor, h.value]

namespace Opcode.Cancels

variable {a b : Opcode}

theorem plain (cancels : Cancels a b) :
    isPlain a.byte = true ∧ isPlain b.byte = true := by
  cases cancels <;> exact ⟨rfl, rfl⟩

theorem not_bracket (cancels : Cancels a b) : a.isBracket = false ∧ b.isBracket = false := by
  cases cancels <;> exact ⟨rfl, rfl⟩

end Opcode.Cancels

def Opcode.Cancels.block {a b : Opcode} (cancels : a.Cancels b) : Block :=
  .plain a.byte cancels.plain.1 (.plain b.byte cancels.plain.2 .done)

theorem Scene.cell_put (w : Scene) (v : UInt8) : (w.put v).cell = v := by
  rw [cell, put, Tape.value_set]
  exact if_pos rfl

/-- Two opcodes that cancel store one value after the other, and the second is the old one. -/
theorem Scene.obey_of_cancels (policy : Policy) (eof : EndOfInput) {a b : Opcode}
    (cancels : a.Cancels b) (w : Scene) :
    ∃ v, w.obey policy eof a = w.put v ∧
      (w.put v).obey policy eof b = (w.put v).put w.cell := by
  cases cancels with
  | increment => exact ⟨w.cell + 1, rfl, by rw [obey, cell_put, UInt8.add_sub_cancel]⟩
  | decrement => exact ⟨w.cell - 1, rfl, by rw [obey, cell_put, UInt8.sub_add_cancel]⟩

namespace Machine

variable {m : Machine} {a b : Opcode} {s u : State} {k : Nat}

/-- Where accesses are not checked, two opcodes that cancel are executed one after the other. -/
theorem exists_path_of_cancels (cancels : a.Cancels b)
    (holds : m.program.Holds u.ip [a.byte, b.byte]) (hlt : u.tape.cursor < u.tape.length) :
    ∃ v, m.Path u 2 v ∧ v.ip = u.ip + 2 ∧ v.loops = u.loops ∧
      u.scene.Alike Tape.SameCells v.scene := by
  obtain ⟨plain, plain'⟩ := cancels.not_bracket
  obtain ⟨c, stores, restores⟩ := Scene.obey_of_cancels m.policy m.eof cancels u.scene
  obtain ⟨t, ht, first⟩ := step_simple holds.opcode? plain fun _ => hlt
  have hscene : t.scene = u.scene.put c := first.scene.trans stores
  have hlt' : t.tape.cursor < t.tape.length := by
    rw [← State.scene_tape, hscene]
    exact hlt
  have hop : m.program.opcode? t.ip = some b := by
    rw [first.ip]
    exact holds.tail.opcode?
  obtain ⟨v, hv, second⟩ := step_simple hop plain' fun _ => hlt'
  refine ⟨v, .next (.single ht) hv, ?_, ?_, ?_⟩
  · rw [second.ip, first.ip]
  · rw [second.loops, first.loops]
  · rw [second.scene, hscene, restores]
    exact ⟨Tape.SameCells.set_set u.tape c, rfl, rfl⟩

/-- Two opcodes that cancel are transparent wherever they are inserted. -/
theorem transparent_of_cancels (lenient : m.policy = .permissive) (cancels : a.Cancels b)
    (hk : k ≤ m.program.size) :
    m.Transparent k cancels.block Tape.SameCells (Across k cancels.block Tape.SameCells) where
  laws := Tape.respected_sameCells m.policy
  bound := hk
  across across := across
  keep _ _ _ after := after
  pass {s u} safe across here := by
    have holds : (m.inserted k cancels.block).program.Holds u.ip [a.byte, b.byte] := by
      rw [here]
      exact Program.holds_insertAt hk cancels.block.bytes
    obtain ⟨v, hp, hip, hloops, hscene⟩ :=
      exists_path_of_cancels cancels holds (safe lenient)
    have hne : v.ip ≠ k := by omega
    refine ⟨2, v, hp, ⟨?_, ?_, ?_⟩, hne⟩
    · rw [Program.past_of_ne hne, across.place, here, Program.past_self, hip, here]
      rfl
    · rw [hloops]
      exact across.loops
    · exact ⟨across.scene.tape.trans hscene.tape, across.scene.unread.trans hscene.unread,
        across.scene.output.trans hscene.output⟩

theorem Across.sameResult {block : Block} (across : Across k block Tape.SameCells s u) :
    (s.emit .flushed).SameResult (u.emit .flushed) := by
  have tapes : s.tape.SameCells u.tape := across.scene.tape
  refine ⟨tapes.length, tapes.cursor, fun i => ?_, across.depth_eq, across.scene.unread, ?_⟩
  · rw [State.tape_emit, State.tape_emit, Tape.cell?, Tape.cell?, tapes.length, tapes.value i]
  · rw [State.output_emit_flushed, State.output_emit_flushed]
    exact across.scene.output

end Machine

/-- An increment and a decrement, in either order, that are inserted anywhere in a program change
nothing in a permissive run without a budget but positions and the number of steps. The two runs
complete with the same result, or report the same loop start as unterminated with the same result
so far, or both go on forever. -/
theorem increments_and_decrements_cancel {size : Int} {cells : Nat}
    (valid : StepSize.ofInt size = .ok cells) (eof : EndOfInput) (input : List UInt8)
    (p : Program) (k : Nat) (hk : k ≤ p.size) (a b : Opcode) (cancels : a.Cancels b) :
    let m : Machine := { program := p, policy := .permissive, eof }
    let n : Machine :=
      { program := p.insertAt k [a.byte, b.byte], policy := .permissive, eof }
    let start := State.initial cells input
    m.RunAlike n State.SameResult (Fault.SameLoop p k 2) start start := by
  intro m n start
  have pos : 0 < cells := (StepSize.ofInt_eq_ok_iff.mp valid).2.1
  have hstart : m.Valid start := Machine.valid_initial m pos input
  have transparent := Machine.transparent_of_cancels (m := m) rfl cancels hk
  have related : Machine.Across k cancels.block Tape.SameCells start start :=
    ⟨Program.moved_zero k _, rfl, .refl _, rfl, rfl⟩
  have alike := transparent.runAlike hstart (Machine.valid_initial _ pos input) related
    Machine.Across.sameResult
  refine alike.imp_faults fun fuel f t g hrun moved => ?_
  obtain ⟨i, u, hp, ⟨-, hr⟩ | ⟨f', hu, fails, hr⟩ | ⟨l, hl, -, -⟩⟩ := Machine.run_cases hstart hrun
  · cases hr
  · cases hr
    obtain ⟨hop, rfl⟩ | strict := fails.unterminated_or_strict hu
    · obtain ⟨j, hj, rfl⟩ := moved
      cases hj
      exact ⟨u.ip, hop, rfl, rfl⟩
    · cases strict
  · cases hl

/-- The program `+[[-]].[` ends at its unterminated loop. A decrement and an increment between its
two loop ends are executed on a zero cell, which the first of them makes 255. The loop is then
reported two positions later, behind the same output. -/
theorem cancelling_pair_between_loop_ends :
    let m : Machine :=
      { program := #[2, 4, 4, 5, 1, 1, 0, 4], policy := .permissive, eof := .zero }
    let n : Machine :=
      { program := #[2, 4, 4, 5, 1, 5, 2, 1, 0, 4], policy := .permissive, eof := .zero }
    let start := State.initial 1 []
    (∃ t, m.run? 20 none start = some (.error ⟨.unterminatedLoop 7, t⟩) ∧ t.output = [0]) ∧
    (∃ t, n.run? 20 none start = some (.error ⟨.unterminatedLoop 9, t⟩) ∧ t.output = [0]) ∧
    m.RunAlike n State.SameResult (Fault.SameLoop m.program 5 2) start start := by
  intro m n start
  have valid : StepSize.ofInt 1 = .ok 1 := rfl
  have alike := increments_and_decrements_cancel valid .zero [] m.program 5 (by decide) _ _
    .decrement
  obtain ⟨t, hrun⟩ : ∃ t, m.run? 20 none (State.initial 1 []) =
      some (.error ⟨.unterminatedLoop 7, t⟩) ∧ t.output = [0] := ⟨_, rfl, rfl⟩
  obtain ⟨t', hrun'⟩ : ∃ t, n.run? 20 none (State.initial 1 []) =
      some (.error ⟨.unterminatedLoop 9, t⟩) ∧ t.output = [0] := ⟨_, rfl, rfl⟩
  exact ⟨⟨t, hrun⟩, ⟨t', hrun'⟩, alike⟩

end NibTape

import NibTape.Proofs.Block
import NibTape.Proofs.Failure

/-!
# What the brackets of a text decide

Whether a run can come to a loop fault, and how many loops it leaves open, is written in the
program text: in the pairs that the forward scan makes, in the loop ends that no pair takes,
which are stray, and in the loop starts that no pair takes, which are unclosed. The input, the
step size and, for the depth, the policy have no part in it.

A loop end is stray exactly if no loop is open in front of it. Past the last instruction the
loops that are open are the unclosed ones. Both facts pass from the text to a run, because a
run keeps its loops nested as in the text. What is new is that a strict run cannot get around a
stray loop end: the one way forward over other instructions is to skip a loop, and a loop that
ends at or behind the stray end, and starts in front of it, would be open there.

A text has balanced brackets exactly if it has no stray loop ends and no unclosed loop starts.
-/

namespace NibTape

namespace Program

variable {p : Program} {a b i k : Nat} {op : Opcode}

/-- The loop start at `a` is closed by the loop end at `b`. -/
def Pairs (p : Program) (a b : Nat) : Prop :=
  p.opcode? a = some .loopStart ∧ p.loopEnd? a = some b

def Stray (p : Program) (b : Nat) : Prop :=
  p.opcode? b = some .loopEnd ∧ ∀ a, ¬ p.Pairs a b

/-- The loop starts that no loop end closes, in order. -/
def unclosed (p : Program) : List Nat :=
  (List.range p.size).filter fun a =>
    p.opcode? a == some .loopStart && (p.loopEnd? a).isNone

def countBefore (p : Program) (op : Opcode) (k : Nat) : Nat := (p.toList.take k).count op.byte

theorem mem_unclosed :
    a ∈ p.unclosed ↔ p.opcode? a = some .loopStart ∧ p.loopEnd? a = none := by
  simp only [unclosed, List.mem_filter, List.mem_range, Bool.and_eq_true, beq_iff_eq,
    Option.isNone_iff_eq_none]
  constructor
  · rintro ⟨-, h⟩
    exact h
  · rintro ⟨hop, hclose⟩
    exact ⟨lt_size_of_opcode? hop, hop, hclose⟩

/-! ### The text stack at a stray end and at the end of the text -/

/-- A loop end is stray exactly if no loop is open in front of it. -/
theorem stray_iff : p.Stray b ↔ p.opcode? b = some .loopEnd ∧ p.openLoops b = [] := by
  constructor
  · rintro ⟨hop, unpaired⟩
    refine ⟨hop, ?_⟩
    rcases List.eq_nil_or_concat (p.openLoops b) with hnil | ⟨below, a, hsplit⟩
    · exact hnil
    · rw [List.concat_eq_append] at hsplit
      have hmem : a ∈ p.openLoops b := by simp [hsplit]
      exact (unpaired a ⟨opcode?_of_mem_openLoops hmem, loopEnd?_of_innermost hop hsplit⟩).elim
  · rintro ⟨hop, hnil⟩
    refine ⟨hop, ?_⟩
    rintro a ⟨hstart, hclose⟩
    have hmem := mem_openLoops_of_le hstart hclose (scan?_eq_some hclose).1 (Nat.le_refl b)
    simp [hnil] at hmem

/-- Past the last instruction, just the unclosed loops are open. -/
theorem openLoops_of_size_le (h : p.size ≤ i) : p.openLoops i = p.unclosed := by
  apply (p.openLoops_sorted i).eq_of_mem_iff
  · exact List.pairwise_lt_range.filter _
  · intro a
    rw [mem_openLoops_iff, mem_unclosed]
    constructor
    · rintro ⟨-, hop, hends⟩
      refine ⟨hop, Option.eq_none_iff_forall_ne_some.mpr ?_⟩
      intro e hclose
      have hlt := lt_size_of_opcode? (scan?_eq_some hclose).2
      have := hends e hclose
      omega
    · rintro ⟨hop, hclose⟩
      have hlt := lt_size_of_opcode? hop
      refine ⟨by omega, hop, ?_⟩
      intro e he
      rw [hclose] at he
      cases he

/-! ### Counting -/

theorem opcode?_eq_some_iff : p.opcode? i = some op ↔ p[i]? = some op.byte := by
  constructor
  · intro h
    obtain ⟨b, hb, hop⟩ := Option.bind_eq_some_iff.mp h
    rw [hb, Opcode.byte_of_ofByte? hop]
  · intro h
    rw [opcode?_eq_of_getElem? h, Opcode.ofByte?_byte]

theorem countBefore_succ (p : Program) (op : Opcode) (i : Nat) :
    p.countBefore op (i + 1) =
      p.countBefore op i + if p.opcode? i = some op then 1 else 0 := by
  simp only [countBefore, List.take_add_one, List.count_append, Array.getElem?_toList,
    opcode?_eq_some_iff]
  cases p[i]? <;> simp [List.count_singleton]

theorem countBefore_size (p : Program) (op : Opcode) :
    p.countBefore op p.size = p.toList.count op.byte := by
  rw [countBefore, ← Array.length_toList, List.take_length]

/-- As long as no loop end is stray, the loop starts in front of a position have ended there or
are open. -/
theorem countBefore_start (matched : ∀ b < k, ¬ p.Stray b) :
    p.countBefore .loopStart k = p.countBefore .loopEnd k + p.nesting k := by
  induction k with
  | zero => rfl
  | succ i ih =>
      have before := ih fun b hb => matched b (Nat.lt_succ_of_lt hb)
      rw [countBefore_succ, countBefore_succ, ← length_openLoops]
      rw [← length_openLoops] at before
      obtain hs | he | ⟨hs, he⟩ := p.bracket_cases i
      · rw [openLoops_of_start hs]
        simp only [hs, List.length_append, List.length_singleton, if_true,
          Option.some.injEq, reduceCtorEq, if_false]
        omega
      · have hne : p.openLoops i ≠ [] := by
          intro hnil
          exact matched i (Nat.lt_succ_self i) (stray_iff.mpr ⟨he, hnil⟩)
        have hpos := List.length_pos_iff.mpr hne
        rw [openLoops_of_end he]
        simp only [he, List.length_dropLast, if_true, Option.some.injEq, reduceCtorEq, if_false]
        omega
      · rw [openLoops_of_other hs he]
        simp only [hs, he, if_false]
        omega

/-- With a stray loop end, the text up to it has one loop end more than loop starts. -/
theorem Balanced.not_stray (balanced : p.Balanced) (b : Nat) : ¬ p.Stray b := by
  induction b using Nat.strong_induction_on with
  | _ b ih =>
      intro stray
      obtain ⟨hop, hnil⟩ := stray_iff.mp stray
      have hcount := countBefore_start ih
      have hpart : p.countBefore .loopEnd (b + 1) ≤ p.countBefore .loopStart (b + 1) :=
        balanced.1 (b + 1) (lt_size_of_opcode? hop)
      rw [countBefore_succ, countBefore_succ, hop, if_pos rfl, if_neg (by decide)] at hpart
      rw [← length_openLoops, hnil, List.length_nil] at hcount
      omega

/-- Brackets are balanced if and only if each of them is paired. -/
theorem balanced_iff : p.Balanced ↔ (∀ b, ¬ p.Stray b) ∧ p.unclosed = [] := by
  have hunclosed : p.nesting p.size = p.unclosed.length := by
    rw [← length_openLoops, openLoops_of_size_le (Nat.le_refl p.size)]
  constructor
  · intro balanced
    refine ⟨balanced.not_stray, List.length_eq_zero_iff.mp ?_⟩
    have hcount := countBefore_start (k := p.size) fun b _ => balanced.not_stray b
    rw [countBefore_size, countBefore_size, balanced.2, hunclosed] at hcount
    omega
  · rintro ⟨matched, hnil⟩
    have hcount : ∀ k, p.countBefore .loopStart k = p.countBefore .loopEnd k + p.nesting k :=
      fun k => countBefore_start fun b _ => matched b
    refine ⟨?_, ?_⟩
    · intro k _
      exact Nat.le.intro (hcount k).symm
    · rw [← countBefore_size, ← countBefore_size, hcount, hunclosed, hnil]
      rfl

end Program

/-- What a loop fault says of a program text: a loop end is there that no loop start has, or a
loop start that has no loop end. -/
def Fault.TrueOf (p : Program) : Fault → Prop
  | unexpectedLoopEnd b => p.Stray b
  | unterminatedLoop a => a ∈ p.unclosed
  | outOfBounds _ _ _ | stepLimit _ _ | pastEnd | missingCell | noOpenLoop => True

namespace Machine

variable {m : Machine} {start s t : State} {f : Fault} {b : Nat} {limit : Option Int}

/-- A step from a state fails with a fault, or a run from it does. -/
def Raises (m : Machine) (s : State) (f : Fault) : Prop :=
  (∃ t, m.step s = .error ⟨f, t⟩) ∨ ∃ limit t, m.Ends limit s (.error ⟨f, t⟩)

theorem Reachable.nested (reachable : m.Reachable start s) (valid : m.Valid start)
    (nested : m.Nested start) : m.Nested s :=
  (reachable.keeps valid
    (fun _ _ hs nested hstep => (move_of_step hs.sheltered hstep).nested nested)
    (fun _ nested => nested) nested).2

theorem Fails.trueOf (fails : m.Fails s f) (nested : m.Nested s) : f.TrueOf m.program := by
  cases fails with
  | pastEnd => trivial
  | outOfBounds => trivial
  | unterminated hop _ hclose => exact Program.mem_unclosed.mpr ⟨hop, hclose⟩
  | unexpected hop hpop _ =>
      have hempty := (LoopStack.pop?_eq_none_iff _).mp hpop
      exact Program.stray_iff.mpr ⟨hop, nested.symm.trans hempty⟩

theorem Raises.trueOf (raises : m.Raises s f) (valid : m.Valid s) (nested : m.Nested s) :
    f.TrueOf m.program := by
  obtain ⟨t, hstep⟩ | ⟨limit, t, hends⟩ := raises
  · exact (fails_of_step valid.sheltered hstep).2.trueOf nested
  · have verdict := (ends_iff_verdict valid).mp hends
    generalize hr : Except.error (⟨f, t⟩ : Halt) = r at verdict
    cases verdict with
    | completed => cases hr
    | failed k u g hp _ fails _ =>
        cases hr
        exact fails.trueOf (hp.nested valid nested)
    | exhausted =>
        cases hr
        trivial

/-- A strict run does not pass a stray loop end. -/
theorem Move.before_stray (move : m.Move s t) (strict : m.policy = .strict)
    (stray : m.program.Stray b) (nested : m.Nested s) (hle : s.ip ≤ b) : t.ip ≤ b := by
  obtain ⟨hend, hnil⟩ := Program.stray_iff.mp stray
  have next : m.program.opcode? s.ip ≠ some .loopEnd → s.ip < b := by
    intro hop
    refine Nat.lt_of_le_of_ne hle ?_
    intro hip
    exact hop (hip ▸ hend)
  cases move with
  | inert _ hop result =>
      rw [result]
      exact next (by simp [hop])
  | simple op hop plain _ follows =>
      rw [follows.ip]
      apply next
      rw [hop]
      rintro ⟨⟩
      cases plain
  | enter _ hop _ _ result =>
      rw [result, State.ip_next, State.ip_openLoop]
      exact next (by simp [hop])
  | skip close hop _ hclose result =>
      rw [result]
      -- a loop that ends behind the stray end would be open in front of it
      apply Nat.lt_of_not_le
      intro hover
      have hopen := Program.mem_openLoops_of_le hop hclose (next (by simp [hop])) hover
      simp [hnil] at hopen
  | back start rest _ hpop result =>
      have hlt := Program.lt_of_mem_openLoops (nested.mem_openLoops hpop)
      rw [result]
      exact Nat.le_trans (Nat.le_of_lt hlt) hle
  | stray _ _ lenient _ => cases strict.symm.trans lenient

theorem Reachable.before_stray {cells : Nat} {input : List UInt8}
    (reachable : m.Reachable (State.initial cells input) s) (pos : 0 < cells)
    (strict : m.policy = .strict) (stray : m.program.Stray b) : s.ip ≤ b := by
  have both : m.Valid s ∧ m.Nested s ∧ s.ip ≤ b := by
    apply reachable.keeps (valid_initial m pos input) ?_ (fun _ h => h)
      ⟨nested_initial m cells input, Nat.zero_le b⟩
    rintro s t hs ⟨nested, hle⟩ hstep
    have move := move_of_step hs.sheltered hstep
    exact ⟨move.nested nested, move.before_stray strict stray nested hle⟩
  exact both.2.2

/-- A run that completes leaves just the unclosed loops open. -/
theorem loops_of_completed (valid : m.Valid s) (nested : m.Nested s)
    (hends : m.Ends limit s (.ok t)) : t.loops.toList = m.program.unclosed := by
  cases (ends_iff_verdict valid).mp hends with
  | completed k u hp hend _ =>
      rw [← Program.openLoops_of_size_le (finished_iff.mp hend)]
      exact hp.nested valid nested

/-- In every state that steps, runs and their failures lead to, a loop end is reported as
unexpected only if it closes no loop start of the text, and a loop start as unterminated only
if no loop end of the text closes it. A run that completes has as many loops open as the text
has loop starts without an end, and a strict run completes only if each loop end of the text
closes a loop. So with balanced brackets there are no loop faults, and no loop is open at the
end; and a strict run that completes with no loop open shows that the brackets are balanced. -/
theorem brackets_decide_loops {size : Int} {cells : Nat}
    (valid : StepSize.ofInt size = .ok cells) (m : Machine) (input : List UInt8) (s : State)
    (reachable : m.Reachable (State.initial cells input) s) :
    (∀ b, m.Raises s (.unexpectedLoopEnd b) → m.program.Stray b) ∧
    (∀ a, m.Raises s (.unterminatedLoop a) →
      m.program.opcode? a = some .loopStart ∧ m.program.loopEnd? a = none) ∧
    (∀ limit t, m.Ends limit s (.ok t) →
      t.loops.depth = m.program.unclosed.length ∧
      (m.policy = .strict → ∀ b, ¬ m.program.Stray b) ∧
      (m.program.Balanced → t.loops.depth = 0) ∧
      (m.policy = .strict → t.loops.depth = 0 → m.program.Balanced)) ∧
    (m.program.Balanced → ∀ i,
      ¬ m.Raises s (.unexpectedLoopEnd i) ∧ ¬ m.Raises s (.unterminatedLoop i)) := by
  have pos : 0 < cells := (StepSize.ofInt_eq_ok_iff.mp valid).2.1
  have hstart : m.Valid (State.initial cells input) := valid_initial m pos input
  have hs : m.Valid s := reachable.valid hstart
  have nested : m.Nested s := reachable.nested hstart (nested_initial m cells input)
  have trueOf : ∀ {f}, m.Raises s f → f.TrueOf m.program := fun h => h.trueOf hs nested
  refine ⟨fun b h => trueOf h, fun a h => Program.mem_unclosed.mp (trueOf h), ?_, ?_⟩
  · intro limit t hends
    have hdepth : t.loops.depth = m.program.unclosed.length := by
      rw [← loops_of_completed hs nested hends, LoopStack.length_toList]
    have hstray : m.policy = .strict → ∀ b, ¬ m.program.Stray b := by
      intro strict b stray
      have hsize := finished_iff.mp (finished_of_ends hs hends)
      have hle : t.ip ≤ b := by
        obtain ⟨fuel, hrun⟩ := hends
        exact (reachable.ran hrun).before_stray pos strict stray
      have hlt := Program.lt_size_of_opcode? stray.1
      omega
    refine ⟨hdepth, hstray, ?_, ?_⟩
    · intro balanced
      rw [hdepth, (Program.balanced_iff.mp balanced).2]
      rfl
    · intro strict hzero
      rw [hdepth, List.length_eq_zero_iff] at hzero
      exact Program.balanced_iff.mpr ⟨hstray strict, hzero⟩
  · intro balanced i
    obtain ⟨matched, hnil⟩ := Program.balanced_iff.mp balanced
    constructor
    · intro raises
      exact matched i (trueOf raises)
    · intro raises
      have hmem : i ∈ m.program.unclosed := trueOf raises
      simp [hnil] at hmem

/-- The strict run of `+[-]` completes with no loop open, so its brackets are balanced. With one
more loop end the run fails there, and that loop end is stray. -/
theorem brackets_decide_loops_of_countdown :
    let m : Machine := { program := #[2, 4, 5, 1], policy := .strict, eof := .zero }
    let m' : Machine := { program := #[2, 4, 5, 1, 1], policy := .strict, eof := .zero }
    let start := State.initial 1 []
    (∃ t, m.Ends none start (.ok t)) ∧ m.program.Balanced ∧
      m'.Raises start (.unexpectedLoopEnd 4) ∧ m'.program.Stray 4 := by
  intro m m' start
  have valid : StepSize.ofInt 1 = .ok 1 := rfl
  obtain ⟨t, hrun, hdepth⟩ : ∃ t, m.run? 5 none (State.initial 1 []) = some (.ok t) ∧
      t.loops.depth = 0 := ⟨_, rfl, rfl⟩
  have hends : m.Ends none start (.ok t) := ⟨5, hrun⟩
  obtain ⟨-, -, completed, -⟩ := brackets_decide_loops valid m [] start .fresh
  obtain ⟨-, -, -, balanced⟩ := completed none t hends
  obtain ⟨t', hrun'⟩ : ∃ t', m'.run? 6 none (State.initial 1 []) =
      some (.error ⟨.unexpectedLoopEnd 4, t'⟩) := ⟨_, rfl⟩
  have raises : m'.Raises start (.unexpectedLoopEnd 4) := .inr ⟨none, t', 6, hrun'⟩
  obtain ⟨unexpected, -⟩ := brackets_decide_loops valid m' [] start .fresh
  exact ⟨⟨t, hends⟩, balanced rfl hdepth, raises, unexpected 4 raises⟩

end Machine

end NibTape

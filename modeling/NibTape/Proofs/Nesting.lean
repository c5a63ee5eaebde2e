import Mathlib.Data.List.Sort
import NibTape.Proofs.Safety

/-!
# Brackets in the text and loops in a run

Two mechanisms pair brackets: the forward scan counts them in the program text, and a run
keeps a stack of the loops it has entered. A third definition connects them. `openLoops p i`
is what a stack would hold that reads the text up to position `i` once, pushing every loop
start and popping at every loop end, stray ones included.

The scan from a loop start finds its end exactly when this stack drops the start, for every
program, balanced or not. A run keeps the equality of its own stack with `openLoops` at the
instruction pointer: through a skip because the scan returns to the same stack, and through
a jump back because the positions below a loop start are the ones that were open there.
-/

namespace NibTape.Program

variable {p : Program} {a b i j d : Nat}

/-- The loops that are open in front of a position, the outermost first. A loop end closes
the innermost one, if there is any. -/
def openLoops (p : Program) : Nat → List Nat
  | 0 => []
  | i + 1 =>
    match p.opcode? i with
    | some .loopStart => p.openLoops i ++ [i]
    | some .loopEnd => (p.openLoops i).dropLast
    | _ => p.openLoops i

/-- How many loops are open in front of a position, counted without remembering them. -/
def nesting (p : Program) : Nat → Nat
  | 0 => 0
  | i + 1 =>
    match p.opcode? i with
    | some .loopStart => p.nesting i + 1
    | some .loopEnd => p.nesting i - 1
    | _ => p.nesting i

/-- Whether a loop starts at `a` whose end does not come before `i`. -/
def opensAt (p : Program) (i a : Nat) : Bool :=
  p.opcode? a == some .loopStart && (p.loopEnd? a).all (i ≤ ·)

/-- The loop starts in front of `i` whose ends do not come before `i`, in order. -/
def enclosing (p : Program) (i : Nat) : List Nat := (List.range i).filter (p.opensAt i)

/-- Looks from position `i` on for the loop end that closes the loop around `depth` others. -/
def scan? (p : Program) (i depth : Nat) : Option Nat := p.closeFrom? (p.size - i) i depth

/-! ### The text stack -/

@[simp] theorem openLoops_zero : p.openLoops 0 = [] := rfl

theorem openLoops_of_start (h : p.opcode? i = some .loopStart) :
    p.openLoops (i + 1) = p.openLoops i ++ [i] := by
  simp only [openLoops, h]

theorem openLoops_of_end (h : p.opcode? i = some .loopEnd) :
    p.openLoops (i + 1) = (p.openLoops i).dropLast := by
  simp only [openLoops, h]

theorem openLoops_of_other (hs : p.opcode? i ≠ some .loopStart)
    (he : p.opcode? i ≠ some .loopEnd) : p.openLoops (i + 1) = p.openLoops i := by
  simp only [openLoops]

/-- The three kinds of instruction for the brackets. -/
theorem bracket_cases (p : Program) (i : Nat) :
    p.opcode? i = some .loopStart ∨ p.opcode? i = some .loopEnd ∨
      (p.opcode? i ≠ some .loopStart ∧ p.opcode? i ≠ some .loopEnd) := by
  by_cases hs : p.opcode? i = some .loopStart
  · exact .inl hs
  · by_cases he : p.opcode? i = some .loopEnd
    · exact .inr (.inl he)
    · exact .inr (.inr ⟨hs, he⟩)

theorem not_bracket (h : ∀ op, p.opcode? i = some op → op.isBracket = false) :
    p.opcode? i ≠ some .loopStart ∧ p.opcode? i ≠ some .loopEnd := by
  constructor
  · intro hs
    cases h _ hs
  · intro he
    cases h _ he

theorem length_openLoops (p : Program) (i : Nat) : (p.openLoops i).length = p.nesting i := by
  induction i with
  | zero => rfl
  | succ i ih =>
      simp only [openLoops, nesting]
      split <;> simp [ih]

theorem mem_openLoops_succ (h : a ∈ p.openLoops (i + 1)) :
    a ∈ p.openLoops i ∨ (a = i ∧ p.opcode? i = some .loopStart) := by
  obtain hs | he | ⟨hs, he⟩ := p.bracket_cases i
  · rw [openLoops_of_start hs, List.mem_append, List.mem_singleton] at h
    obtain h | rfl := h
    · exact .inl h
    · exact .inr ⟨rfl, hs⟩
  · rw [openLoops_of_end he] at h
    exact .inl ((List.dropLast_sublist _).subset h)
  · rw [openLoops_of_other hs he] at h
    exact .inl h

theorem lt_of_mem_openLoops (h : a ∈ p.openLoops i) : a < i := by
  induction i with
  | zero => simp at h
  | succ i ih =>
      obtain h | ⟨rfl, -⟩ := mem_openLoops_succ h
      · exact Nat.lt_succ_of_lt (ih h)
      · exact Nat.lt_succ_self a

theorem opcode?_of_mem_openLoops (h : a ∈ p.openLoops i) :
    p.opcode? a = some .loopStart := by
  induction i with
  | zero => simp at h
  | succ i ih =>
      obtain h | ⟨rfl, hop⟩ := mem_openLoops_succ h
      · exact ih h
      · exact hop

theorem openLoops_sorted (p : Program) (i : Nat) : (p.openLoops i).Pairwise (· < ·) := by
  induction i with
  | zero => exact List.Pairwise.nil
  | succ i ih =>
      obtain hs | he | ⟨hs, he⟩ := p.bracket_cases i
      · rw [openLoops_of_start hs, List.pairwise_append]
        refine ⟨ih, List.pairwise_singleton _ _, ?_⟩
        intro a ha b hb
        rw [List.mem_singleton.mp hb]
        exact lt_of_mem_openLoops ha
      · rw [openLoops_of_end he]
        exact ih.sublist (List.dropLast_sublist _)
      · rw [openLoops_of_other hs he]
        exact ih

/-! ### The forward scan -/

theorem lt_size_of_opcode? {op : Opcode} (h : p.opcode? i = some op) : i < p.size := by
  obtain ⟨b, hb, -⟩ := Option.bind_eq_some_iff.mp h
  exact (Array.getElem?_eq_some_iff.mp hb).1

theorem loopEnd?_eq_scan? : p.loopEnd? a = p.scan? (a + 1) 0 := rfl

theorem scan?_of_start (h : p.opcode? i = some .loopStart) :
    p.scan? i d = p.scan? (i + 1) (d + 1) := by
  have hlt := lt_size_of_opcode? h
  have hcount : p.size - i = p.size - (i + 1) + 1 := by omega
  simp only [scan?, hcount, closeFrom?, h]

theorem scan?_of_end_zero (h : p.opcode? i = some .loopEnd) : p.scan? i 0 = some i := by
  have hlt := lt_size_of_opcode? h
  have hcount : p.size - i = p.size - (i + 1) + 1 := by omega
  simp only [scan?, hcount, closeFrom?, h]

theorem scan?_of_end_succ (h : p.opcode? i = some .loopEnd) :
    p.scan? i (d + 1) = p.scan? (i + 1) d := by
  have hlt := lt_size_of_opcode? h
  have hcount : p.size - i = p.size - (i + 1) + 1 := by omega
  simp only [scan?, hcount, closeFrom?, h]

theorem scan?_of_other (hs : p.opcode? i ≠ some .loopStart) (he : p.opcode? i ≠ some .loopEnd) :
    p.scan? i d = p.scan? (i + 1) d := by
  rcases Nat.lt_or_ge i p.size with hlt | hge
  · have hcount : p.size - i = p.size - (i + 1) + 1 := by omega
    simp only [scan?, hcount, closeFrom?]
  · have hnow : p.size - i = 0 := by omega
    have hnext : p.size - (i + 1) = 0 := by omega
    simp only [scan?, hnow, hnext, closeFrom?]

/-- Induction along a scan, from the end of the text backwards. -/
@[elab_as_elim]
theorem scan_induction {motive : Nat → Nat → Prop}
    (past : ∀ i d, p.size ≤ i → motive i d)
    (start : ∀ i d, p.opcode? i = some .loopStart → motive (i + 1) (d + 1) → motive i d)
    (found : ∀ i, p.opcode? i = some .loopEnd → motive i 0)
    (inner : ∀ i d, p.opcode? i = some .loopEnd → motive (i + 1) d → motive i (d + 1))
    (other : ∀ i d, i < p.size → p.opcode? i ≠ some .loopStart → p.opcode? i ≠ some .loopEnd →
      motive (i + 1) d → motive i d)
    (i d : Nat) : motive i d := by
  generalize hcount : p.size - i = remaining
  induction remaining generalizing i d with
  | zero => exact past i d (by omega)
  | succ remaining ih =>
      have later : ∀ d, motive (i + 1) d := fun d => ih (i + 1) d (by omega)
      obtain hs | he | ⟨hs, he⟩ := p.bracket_cases i
      · exact start i d hs (later _)
      · cases d with
        | zero => exact found i he
        | succ d => exact inner i d he (later d)
      · exact other i d (by omega) hs he (later d)

theorem scan?_of_size_le (h : p.size ≤ i) (d : Nat) : p.scan? i d = none := by
  have hcount : p.size - i = 0 := by omega
  simp only [scan?, hcount, closeFrom?]

/-- A scan stops at a loop end that it has not passed yet. -/
theorem scan?_eq_some (h : p.scan? i d = some j) :
    i ≤ j ∧ p.opcode? j = some .loopEnd := by
  induction i, d using scan_induction (p := p) with
  | past i d hsize =>
      rw [scan?_of_size_le hsize] at h
      cases h
  | start i d hs ih =>
      rw [scan?_of_start hs] at h
      exact ⟨Nat.le_of_succ_le (ih h).1, (ih h).2⟩
  | found i he =>
      rw [scan?_of_end_zero he] at h
      cases h
      exact ⟨Nat.le_refl _, he⟩
  | inner i d he ih =>
      rw [scan?_of_end_succ he] at h
      exact ⟨Nat.le_of_succ_le (ih h).1, (ih h).2⟩
  | other i d _ hs he ih =>
      rw [scan?_of_other hs he] at h
      exact ⟨Nat.le_of_succ_le (ih h).1, (ih h).2⟩

/-! ### The two agree -/

/-- A loop that is open behind an instruction was opened by it or was open in front of it, and
then the scan passes the instruction with as many loops to close as the stack holds above. -/
theorem split_openLoops_succ {l r : List Nat} (h : p.openLoops (i + 1) = l ++ a :: r) :
    (a = i ∧ p.openLoops i = l ∧ r = []) ∨
      ∃ r', p.openLoops i = l ++ a :: r' ∧ p.scan? i r'.length = p.scan? (i + 1) r.length := by
  obtain hs | he | ⟨hs, he⟩ := p.bracket_cases i
  · rw [openLoops_of_start hs] at h
    rcases List.eq_nil_or_concat r with rfl | ⟨r, x, rfl⟩
    · obtain ⟨hl, hx⟩ := List.append_inj' h rfl
      simp only [List.cons.injEq, and_true] at hx
      exact .inl ⟨hx.symm, hl, rfl⟩
    · rw [List.concat_eq_append, ← List.cons_append, ← List.append_assoc] at h
      refine .inr ⟨r, (List.append_inj' h rfl).1, ?_⟩
      rw [scan?_of_start hs, List.length_concat]
  · rw [openLoops_of_end he] at h
    rcases List.eq_nil_or_concat (p.openLoops i) with hnil | ⟨below, x, hx⟩
    · rw [hnil] at h
      simp at h
    · rw [List.concat_eq_append] at hx
      rw [hx, List.dropLast_concat] at h
      rw [h, List.append_assoc, List.cons_append] at hx
      refine .inr ⟨r ++ [x], hx, ?_⟩
      rw [List.length_append, List.length_singleton, scan?_of_end_succ he]
  · rw [openLoops_of_other hs he] at h
    exact .inr ⟨r, h, scan?_of_other hs he⟩

/-- What lies below an open loop start is what was open in front of it. -/
theorem openLoops_of_split {l r : List Nat} (h : p.openLoops i = l ++ a :: r) :
    p.openLoops a = l := by
  induction i generalizing r with
  | zero => simp at h
  | succ i ih =>
      obtain ⟨rfl, hl, -⟩ | ⟨r', hsplit, -⟩ := split_openLoops_succ h
      · exact hl
      · exact ih hsplit

/-- While a loop is open, the scan from its start has counted the loops opened inside it. -/
theorem loopEnd?_of_split {l r : List Nat} (h : p.openLoops i = l ++ a :: r) :
    p.loopEnd? a = p.scan? i r.length := by
  induction i generalizing r with
  | zero => simp at h
  | succ i ih =>
      obtain ⟨rfl, -, rfl⟩ | ⟨r', hsplit, hscan⟩ := split_openLoops_succ h
      · rfl
      · rw [ih hsplit, hscan]

/-- The innermost open loop in front of a loop end is the one that it closes. -/
theorem loopEnd?_of_innermost {l : List Nat} (hop : p.opcode? b = some .loopEnd)
    (h : p.openLoops b = l ++ [a]) : p.loopEnd? a = some b := by
  rw [loopEnd?_of_split h, List.length_nil, scan?_of_end_zero hop]

/-- An open loop stays open behind every instruction but its end. -/
theorem mem_openLoops_succ_of_mem (h : a ∈ p.openLoops i) (hend : p.loopEnd? a ≠ some i) :
    a ∈ p.openLoops (i + 1) := by
  obtain hs | he | ⟨hs, he⟩ := p.bracket_cases i
  · rw [openLoops_of_start hs]
    exact List.mem_append_left _ h
  · rw [openLoops_of_end he]
    rcases List.eq_nil_or_concat (p.openLoops i) with hnil | ⟨below, x, hx⟩
    · rw [hnil] at h
      simp at h
    · rw [List.concat_eq_append] at hx
      rw [hx, List.mem_append, List.mem_singleton] at h
      rw [hx, List.dropLast_concat]
      obtain h | rfl := h
      · exact h
      · exact (hend (loopEnd?_of_innermost he hx)).elim
  · rw [openLoops_of_other hs he]
    exact h

/-- The loops open in front of a position are those that start before it and do not end
before it. -/
theorem mem_openLoops_iff :
    a ∈ p.openLoops i ↔
      a < i ∧ p.opcode? a = some .loopStart ∧ ∀ e, p.loopEnd? a = some e → i ≤ e := by
  constructor
  · intro h
    refine ⟨lt_of_mem_openLoops h, opcode?_of_mem_openLoops h, ?_⟩
    intro e he
    obtain ⟨l, r, hsplit⟩ := List.append_of_mem h
    rw [loopEnd?_of_split hsplit] at he
    exact (scan?_eq_some he).1
  · rintro ⟨hlt, hop, hends⟩
    induction i with
    | zero => omega
    | succ i ih =>
        obtain rfl | hlt := Nat.eq_or_lt_of_le (Nat.le_of_lt_succ hlt)
        · rw [openLoops_of_start hop]
          simp
        · apply mem_openLoops_succ_of_mem
          · exact ih hlt fun e h => Nat.le_of_succ_le (hends e h)
          · intro hend
            exact Nat.not_succ_le_self i (hends i hend)

theorem opensAt_iff :
    p.opensAt i a = true ↔
      p.opcode? a = some .loopStart ∧ ∀ e, p.loopEnd? a = some e → i ≤ e := by
  cases hclose : p.loopEnd? a <;> simp [opensAt, hclose]

theorem openLoops_eq_enclosing (p : Program) (i : Nat) : p.openLoops i = p.enclosing i := by
  apply (p.openLoops_sorted i).eq_of_mem_iff
  · exact List.pairwise_lt_range.filter _
  · intro a
    rw [mem_openLoops_iff, enclosing, List.mem_filter, List.mem_range, opensAt_iff]

/-- From its start to its end a loop is open. -/
theorem mem_openLoops_of_le (hop : p.opcode? a = some .loopStart)
    (hclose : p.loopEnd? a = some j) (hlt : a < i) (hle : i ≤ j) : a ∈ p.openLoops i := by
  refine mem_openLoops_iff.mpr ⟨hlt, hop, ?_⟩
  intro e he
  rw [hclose, Option.some.injEq] at he
  omega

/-- In front of its end a loop is the innermost one. -/
theorem openLoops_at_loopEnd? (hop : p.opcode? a = some .loopStart)
    (hclose : p.loopEnd? a = some j) : p.openLoops j = p.openLoops a ++ [a] := by
  obtain ⟨hlt, hend⟩ := scan?_eq_some hclose
  have hmem : a ∈ p.openLoops j := mem_openLoops_of_le hop hclose hlt (Nat.le_refl j)
  obtain ⟨l, r, hsplit⟩ := List.append_of_mem hmem
  have hscan := loopEnd?_of_split hsplit
  rw [hclose] at hscan
  cases hr : r with
  | nil => rw [hsplit, hr, openLoops_of_split hsplit]
  | cons x r' =>
      -- with a loop still open inside, the scan would go on past `j`
      rw [hr, List.length_cons, scan?_of_end_succ hend] at hscan
      have := (scan?_eq_some hscan.symm).1
      omega

/-- Past the end of a loop the same loops are open as in front of its start. -/
theorem openLoops_of_loopEnd? (hop : p.opcode? a = some .loopStart)
    (hclose : p.loopEnd? a = some j) : p.openLoops (j + 1) = p.openLoops a := by
  rw [openLoops_of_end (scan?_eq_some hclose).2, openLoops_at_loopEnd? hop hclose,
    List.dropLast_concat]

end NibTape.Program

namespace NibTape.Machine

variable {m : Machine} {n : Nat} {s t : State}

/-- The loops that a run has entered are those open in the text in front of it. -/
def Nested (m : Machine) (s : State) : Prop := s.loops.toList = m.program.openLoops s.ip

theorem nested_initial (m : Machine) (stepSize : Nat) (input : List UInt8) :
    m.Nested (State.initial stepSize input) := rfl

/-- A loop end goes back to a loop that is open in front of it. -/
theorem Nested.mem_openLoops {start : Nat} {rest : LoopStack Nat} (nested : m.Nested s)
    (hpop : s.loops.pop? = some (start, rest)) : start ∈ m.program.openLoops s.ip := by
  rw [← nested, (LoopStack.pop?_eq_some hpop).1]
  simp

theorem Move.nested (move : m.Move s t) (nested : m.Nested s) : m.Nested t := by
  unfold Nested at nested ⊢
  cases move with
  | inert hlt hop result =>
      obtain ⟨hs, he⟩ := Program.not_bracket (p := m.program) (i := s.ip) (by simp [hop])
      rw [result]
      exact nested.trans (Program.openLoops_of_other hs he).symm
  | simple op hop plain _ follows =>
      obtain ⟨hs, he⟩ := Program.not_bracket (p := m.program) (i := s.ip) (by simp [hop, plain])
      rw [follows.loops, follows.ip, nested, Program.openLoops_of_other hs he]
  | enter v hop _ _ result =>
      rw [result, State.loops_next, State.loops_openLoop, LoopStack.toList_push, State.ip_next,
        State.ip_openLoop, nested, Program.openLoops_of_start hop]
  | skip close hop _ hclose result =>
      rw [result]
      exact nested.trans (Program.openLoops_of_loopEnd? hop hclose).symm
  | back start rest hop hpop result =>
      obtain ⟨hsplit, -, -⟩ := LoopStack.pop?_eq_some hpop
      rw [nested] at hsplit
      rw [result]
      exact (Program.openLoops_of_split hsplit).symm
  | stray hop hpop _ result =>
      have hempty := (LoopStack.pop?_eq_none_iff _).mp hpop
      rw [hempty] at nested
      rw [result, State.loops_next, State.ip_next, hempty, Program.openLoops_of_end hop, ← nested]
      rfl

theorem Path.nested (hp : m.Path s n t) (valid : m.Valid s) (nested : m.Nested s) :
    m.Nested t := by
  have both := hp.keeps (P := fun s => m.Valid s ∧ m.Nested s)
    (fun s t h hstep =>
      ⟨h.1.step hstep, (move_of_step h.1.sheltered hstep).nested h.2⟩) ⟨valid, nested⟩
  exact both.2

/-- The step behind an execution from the start is a move from a nested state. -/
theorem Path.nested_move {cells : Nat} {input : List UInt8}
    (before : m.Path (State.initial cells input) n s) (pos : 0 < cells)
    (hstep : m.step s = .ok t) : m.Nested s ∧ m.Move s t := by
  have hstart := valid_initial m pos input
  exact ⟨before.nested hstart (nested_initial m cells input),
    move_of_step (before.valid hstart).sheltered hstep⟩

/-- In every state of a run the loop stack holds, bottom to top, the loop starts in front of
the instruction pointer whose ends the forward scan does not find in front of it; their
number is the nesting depth of the text. A loop end that goes back goes to the loop start
whose scan finds that very loop end. -/
theorem loops_eq_enclosing {size : Int} {cells : Nat} (valid : StepSize.ofInt size = .ok cells)
    (m : Machine) (input : List UInt8) (n : Nat) (s : State)
    (hp : m.Path (State.initial cells input) n s) :
    s.loops.toList = m.program.enclosing s.ip ∧
    s.loops.depth = m.program.nesting s.ip ∧
    ∀ start rest, m.program.opcode? s.ip = some .loopEnd →
      s.loops.pop? = some (start, rest) →
      m.step s = .ok ({ s with loops := rest }.jump start) ∧
      m.program.opcode? start = some .loopStart ∧ m.program.loopEnd? start = some s.ip := by
  have pos : 0 < cells := (StepSize.ofInt_eq_ok_iff.mp valid).2.1
  have nested : s.loops.toList = m.program.openLoops s.ip :=
    hp.nested (valid_initial m pos input) (nested_initial m cells input)
  refine ⟨?_, ?_, ?_⟩
  · rw [nested, Program.openLoops_eq_enclosing]
  · rw [← LoopStack.length_toList, nested, Program.length_openLoops]
  · intro start rest hop hpop
    obtain ⟨hsplit, -, -⟩ := LoopStack.pop?_eq_some hpop
    rw [nested] at hsplit
    have hmem : start ∈ m.program.openLoops s.ip := by simp [hsplit]
    exact ⟨step_back hop hpop, Program.opcode?_of_mem_openLoops hmem,
      Program.loopEnd?_of_innermost hop hsplit⟩

/-- In `]+[[]` the first loop end is stray and the first loop is never closed; both loops are
open in front of the second loop end, which goes back to the inner one. -/
theorem loops_after_stray_end :
    let m : Machine := { program := #[1, 2, 4, 4, 1], policy := .permissive, eof := .zero }
    ∃ s, m.Path (State.initial 1 []) 4 s ∧ s.loops.toList = [2, 3] ∧
      s.loops.toList = m.program.enclosing s.ip ∧ s.loops.depth = m.program.nesting s.ip ∧
      m.program.loopEnd? 3 = some s.ip := by
  intro m
  obtain ⟨s, hp, hop, hpop, hloops⟩ : ∃ s, m.Path (State.initial 1 []) 4 s ∧
      m.program.opcode? s.ip = some .loopEnd ∧
      (∃ rest, s.loops.pop? = some (3, rest)) ∧ s.loops.toList = [2, 3] :=
    ⟨_, .next (.next (.next (.next .start rfl) rfl) rfl) rfl, rfl, ⟨_, rfl⟩, rfl⟩
  obtain ⟨rest, hpop⟩ := hpop
  have valid : StepSize.ofInt 1 = .ok 1 := rfl
  obtain ⟨henclosing, hdepth, hback⟩ := loops_eq_enclosing valid m [] 4 s hp
  exact ⟨s, hp, hloops, henclosing, hdepth, (hback 3 rest hop hpop).2.2⟩

end NibTape.Machine

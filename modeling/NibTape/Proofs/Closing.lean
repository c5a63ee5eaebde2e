import NibTape.Proofs.Generation
import NibTape.Proofs.Inert
import NibTape.Proofs.Pairing

/-!
# Structured programs close their loops

The loops that the generator opens are not the loops of the text it makes. A stray loop end in a
body closes the loop before the generator does, and what the generator meant as its end is
stray in turn or closes a loop around it.

What survives is a count: from any place of the text on, there are as many loop ends as loop
starts or more. Opcodes and whole loops can be added at the right without breaking this, and
inert half bytes do not matter. The scan for the end of a loop runs out of text only if it has
seen fewer ends than starts, its own included; so it never does.
-/

namespace NibTape

/-- Sequences of opcodes in which, from any place on, no fewer loops end than start. -/
def Opcode.Closing (ops : List Opcode) : Prop :=
  ∀ rest, rest <:+ ops → rest.count .loopStart ≤ rest.count .loopEnd

namespace Opcode.Closing

variable {ops more body : List Opcode} {op : Opcode}

theorem nil : Closing [] := by
  intro rest h
  rw [List.suffix_nil.mp h]
  exact Nat.le_refl _

theorem tail (h : Closing (op :: ops)) : Closing ops :=
  fun rest suffix => h rest (suffix.trans (List.suffix_cons op ops))

theorem append (h : Closing ops) (h' : Closing more) : Closing (ops ++ more) := by
  induction ops with
  | nil => exact h'
  | cons op ops ih =>
      intro rest suffix
      rw [List.cons_append, List.suffix_cons_iff] at suffix
      obtain rfl | suffix := suffix
      · rw [← List.cons_append, List.count_append, List.count_append]
        exact Nat.add_le_add (h _ (List.suffix_refl _)) (h' _ (List.suffix_refl _))
      · exact ih h.tail rest suffix

theorem cons (h : Closing ops)
    (count : (op :: ops).count .loopStart ≤ (op :: ops).count .loopEnd) :
    Closing (op :: ops) := by
  intro rest suffix
  obtain rfl | suffix := List.suffix_cons_iff.mp suffix
  · exact count
  · exact h rest suffix

theorem singleton (plain : op ≠ .loopStart) : Closing [op] :=
  nil.cons (by simp [plain])

theorem loop (h : Closing body) :
    Closing (.loopStart :: (body ++ [.decrVal, .loopEnd])) := by
  have hend : Closing [.decrVal, .loopEnd] := (singleton (by decide)).cons (by decide)
  have hbody := h _ (List.suffix_refl _)
  refine (h.append hend).cons ?_
  simp only [List.count_cons, List.count_append, List.count_nil, beq_iff_eq, reduceCtorEq,
    ↓reduceIte]
  omega

end Opcode.Closing

theorem Fuzz.Grown.closing {budget depth : Nat} {made result : List Opcode}
    (grown : Grown budget depth made result) (h : Opcode.Closing made) :
    Opcode.Closing result := by
  induction grown with
  | full _ => exact h
  | piece _ plain _ ih => exact ih (h.append (.singleton plain))
  | loop _ _ _ _ inside further => exact further (h.append (inside .nil).loop)

/-- A scan that finds no loop end has passed no more loop ends than loop starts. -/
theorem Opcode.count_of_closing?_eq_none {ops : List Opcode} {depth : Nat}
    (h : closing? ops depth = none) :
    ops.count .loopEnd ≤ ops.count .loopStart + depth := by
  fun_induction closing? ops depth with
  | case1 depth => simp
  | case2 rest depth ih =>
      have hrest := ih (Option.map_eq_none_iff.mp h)
      simp only [ne_eq, reduceCtorEq, not_false_eq_true, List.count_cons_of_ne,
        List.count_cons_self]
      omega
  | case3 rest => cases h
  | case4 rest depth ih =>
      have hrest := ih (Option.map_eq_none_iff.mp h)
      simp only [ne_eq, reduceCtorEq, not_false_eq_true, List.count_cons_of_ne,
        List.count_cons_self]
      omega
  | case5 op rest depth _ stray hend ih =>
      have hrest := ih (Option.map_eq_none_iff.mp h)
      have plain : op ≠ .loopEnd := by
        rintro rfl
        cases depth with
        | zero => exact stray rfl rfl
        | succ depth => exact hend depth rfl rfl
      have hmore := List.count_le_count_cons (a := Opcode.loopStart) (b := op) (l := rest)
      rw [List.count_cons_of_ne plain]
      omega

namespace Program

variable {p : Program} {a : Nat}

/-- Where no fewer loops end than start from any place on, each loop start has its end. -/
theorem exists_loopEnd? (closing : Opcode.Closing p.opcodes)
    (hop : p.opcode? a = some .loopStart) : ∃ b, p.loopEnd? a = some b := by
  cases hclose : p.loopEnd? a with
  | some b => exact ⟨b, rfl⟩
  | none =>
      rw [loopEnd?_eq_scan?] at hclose
      have hclosing := rank_scan? p (a + 1) 0
      rw [hclose] at hclosing
      have hcount := Opcode.count_of_closing?_eq_none (Option.map_eq_none_iff.mp hclosing.symm)
      have suffix : p.opcodesFrom a <:+ p.opcodes := drop_rank p a ▸ List.drop_suffix _ _
      have hmore := closing _ suffix
      rw [opcodesFrom_of_opcode hop] at hmore
      simp only [ne_eq, reduceCtorEq, not_false_eq_true, List.count_cons_of_ne,
        List.count_cons_self] at hmore
      omega

end Program

open Fuzz NibTape.Random

/-- The packed programs of the structured generator hold the opcodes that it made. -/
theorem Fuzz.Generator.closing_of_structuredProgram {maxInstructions maxDepth : Int}
    {words rest : Supply} {bytes : List UInt8}
    (h : Generator.structuredProgram maxInstructions maxDepth words = .ok (bytes, rest)) :
    Opcode.Closing (Packed.unpack bytes).opcodes := by
  obtain ⟨budget, ops, -, -, grown, rfl⟩ := Generator.grown_of_structuredProgram h
  rw [Packed.opcodes_unpack_join_byte]
  exact grown.closing .nil

/-- Whatever the words from which a structured program was made, each of its loop starts has a
loop end. So in every state that steps, runs and their failures lead to, no loop is reported as
unterminated, and no run completes with a loop open. -/
theorem structured_programs_close_their_loops {maxInstructions maxDepth : Int}
    {words rest : Supply} {bytes : List UInt8}
    (made : Generator.structuredProgram maxInstructions maxDepth words = .ok (bytes, rest)) :
    (∀ a, (Packed.unpack bytes).opcode? a = some .loopStart →
      ∃ b, (Packed.unpack bytes).loopEnd? a = some b) ∧
    ∀ size cells, StepSize.ofInt size = .ok cells → ∀ policy eof input s,
      let m : Machine := { program := Packed.unpack bytes, policy, eof }
      m.Reachable (State.initial cells input) s →
        (∀ a, ¬ m.Raises s (.unterminatedLoop a)) ∧
        ∀ limit t, m.Ends limit s (.ok t) → t.loops.depth = 0 := by
  have closing := Generator.closing_of_structuredProgram made
  have hnil : (Packed.unpack bytes).unclosed = [] := by
    rw [List.eq_nil_iff_forall_not_mem]
    intro a ha
    obtain ⟨hop, hnone⟩ := Program.mem_unclosed.mp ha
    obtain ⟨b, hb⟩ := Program.exists_loopEnd? closing hop
    rw [hb] at hnone
    cases hnone
  refine ⟨fun a hop => Program.exists_loopEnd? closing hop, ?_⟩
  intro size cells valid policy eof input s m reachable
  have pos : 0 < cells := (StepSize.ofInt_eq_ok_iff.mp valid).2.1
  have hstart : m.Valid (State.initial cells input) := Machine.valid_initial m pos input
  have hs : m.Valid s := reachable.valid hstart
  have nested : m.Nested s := reachable.nested hstart (Machine.nested_initial m cells input)
  constructor
  · intro a raises
    have hmem : a ∈ m.program.unclosed := raises.trueOf hs nested
    simp [m, hnil] at hmem
  · intro limit t hends
    have hloops := Machine.loops_of_completed hs nested hends
    rw [hnil, ← List.length_eq_zero_iff, LoopStack.length_toList] at hloops
    exact hloops

/-- From these words the generator makes `+[-]-]`, a loop with the body `-]`. The stray loop end
closes the loop, and the loop end that was meant for it closes none. The permissive run
completes with no loop open. -/
theorem structured_program_with_stray_end :
    let words : Supply := .listed [0xA0000000, 0x66000000, 0, 0xE6000000, 0, 0x80000000,
      0x99000000, 0, 0xFB000000, 0]
    let m : Machine :=
      { program := Packed.unpack [0x24, 0x51, 0x51], policy := .permissive, eof := .zero }
    let start := State.initial 1 []
    (∃ rest, Generator.structuredProgram 6 1 words = .ok ([0x24, 0x51, 0x51], rest)) ∧
    m.program.Stray 5 ∧ (∃ b, m.program.loopEnd? 1 = some b) ∧
    (∀ a, ¬ m.Raises start (.unterminatedLoop a)) ∧
    ∃ t, m.Ends none start (.ok t) ∧ t.loops.depth = 0 := by
  intro words m start
  obtain ⟨rest, made⟩ : ∃ rest,
      Generator.structuredProgram 6 1 words = .ok ([0x24, 0x51, 0x51], rest) :=
    Draw.exists_of_result (by decide +kernel)
  have valid : StepSize.ofInt 1 = .ok 1 := rfl
  obtain ⟨closed, runs⟩ := structured_programs_close_their_loops made
  obtain ⟨raises, completed⟩ := runs 1 1 valid .permissive .zero [] start .fresh
  have stray : m.program.Stray 5 := Program.stray_iff.mpr ⟨rfl, rfl⟩
  obtain ⟨t, hrun⟩ : ∃ t, m.run? 20 none (State.initial 1 []) = some (.ok t) := ⟨_, rfl⟩
  exact ⟨⟨rest, made⟩, stray, closed 1 rfl, raises, t, ⟨20, hrun⟩, completed none t ⟨20, hrun⟩⟩

end NibTape

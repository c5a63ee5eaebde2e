import NibTape.Proofs.Generation
import NibTape.Proofs.Inert
import NibTape.Proofs.Pairing

/-!
# Structured programs nest their loops no deeper than asked

A stray loop end closes a loop before the generator does, so the loops of the text are others than
those that the generator opens, and a piece of the text may leave fewer loops open than it has
found. It never leaves more. Wherever it starts, it comes at most as many loops deeper in between
as the generator allows, and neither adding an opcode nor putting a loop around it breaks that.

The loops open in a run are those open in the text in front of it, so the bound on the text is one
on the loop stack.
-/

namespace NibTape

namespace Opcode

variable {ops more body front : List Opcode} {op : Opcode} {depth level : Nat}

/-- How many loops are open behind an opcode. A loop end that closes none is stray. -/
def nest (level : Nat) : Opcode → Nat
  | .loopStart => level + 1
  | .loopEnd => level - 1
  | _ => level

theorem nest_le (plain : op ≠ .loopStart) (level : Nat) : nest level op ≤ level := by
  cases op with
  | loopStart => exact (plain rfl).elim
  | loopEnd => exact Nat.sub_le level 1
  | _ => exact Nat.le_refl level

/-- Sequences of opcodes that leave no more loops open than they have found, and come at most
`depth` loops deeper in between. -/
structure Shallow (depth : Nat) (ops : List Opcode) : Prop where
  within : ∀ level front, front <+: ops → front.foldl nest level ≤ level + depth
  closed : ∀ level, ops.foldl nest level ≤ level

namespace Shallow

theorem nil (depth : Nat) : Shallow depth [] where
  within level front h := by
    rw [List.prefix_nil.mp h]
    exact Nat.le_add_right level depth
  closed := Nat.le_refl

theorem singleton (plain : op ≠ .loopStart) (depth : Nat) : Shallow depth [op] where
  within level front h := by
    obtain rfl | ⟨rest, rfl, hrest⟩ := List.prefix_cons_iff.mp h
    · exact Nat.le_add_right level depth
    · rw [List.prefix_nil.mp hrest]
      exact Nat.le_add_right_of_le (nest_le plain level)
  closed := nest_le plain

theorem append (h : Shallow depth ops) (h' : Shallow depth more) :
    Shallow depth (ops ++ more) where
  within level front hfront := by
    obtain inside | ⟨rest, rfl⟩ :=
      List.prefix_or_prefix_of_prefix hfront (List.prefix_append ops more)
    · exact h.within level front inside
    · have hrest := h'.within (ops.foldl nest level) rest
        ((List.prefix_append_right_inj ops).mp hfront)
      have hlevel := h.closed level
      rw [List.foldl_append]
      omega
  closed level := by
    rw [List.foldl_append]
    exact Nat.le_trans (h'.closed _) (h.closed level)

/-- A loop comes one deeper than its body. Its end closes it, if the body has not. -/
theorem loop (h : Shallow depth body) :
    Shallow (depth + 1) (.loopStart :: (body ++ [.decrVal, .loopEnd])) where
  within level front hfront := by
    obtain rfl | ⟨rest, rfl, hrest⟩ := List.prefix_cons_iff.mp hfront
    · exact Nat.le_add_right level _
    · -- the end of the loop goes no deeper than its body, which begins one level further down
      have hend : Shallow depth [.decrVal, .loopEnd] :=
        (singleton (by decide) depth).append (singleton (by decide) depth)
      have hinside := (h.append hend).within (level + 1) rest hrest
      rw [List.foldl_cons, nest]
      omega
  closed level := by
    have hbody := h.closed (level + 1)
    simp only [List.foldl_cons, List.foldl_append, List.foldl_nil, nest]
    omega

end Shallow

end Opcode

theorem Fuzz.Grown.shallow {budget depth : Nat} {made result : List Opcode}
    (grown : Grown budget depth made result) (h : Opcode.Shallow depth made) :
    Opcode.Shallow depth result := by
  induction grown with
  | full _ => exact h
  | piece _ plain _ ih => exact ih (h.append (.singleton plain _))
  | loop _ _ _ _ inside further => exact further (h.append (inside (.nil _)).loop)

/-- The nesting in front of a position is what the opcodes in front of it leave open. -/
theorem Program.nesting_eq_foldl (p : Program) (i : Nat) :
    p.nesting i = (p.opcodes.take (p.rank i)).foldl Opcode.nest 0 := by
  induction i with
  | zero => rfl
  | succ i ih =>
      cases hop : p.opcode? i with
      | none => rw [rank_of_inert hop, ← ih, nesting, hop]
      | some op =>
          have hget : p.opcodes[p.rank i]? = some op := by
            rw [← List.head?_drop, drop_rank, opcodesFrom_of_opcode hop, List.head?_cons]
          rw [rank_of_opcode hop, List.take_add_one, hget, List.foldl_append, ← ih, nesting, hop]
          cases op <;> rfl

open Fuzz NibTape.Random

/-- The text of a structured program nests its loops no deeper than asked. -/
theorem Fuzz.Generator.nesting_le_of_structuredProgram {maxInstructions maxDepth : Int}
    {words rest : Supply} {bytes : List UInt8}
    (h : Generator.structuredProgram maxInstructions maxDepth words = .ok (bytes, rest))
    (i : Nat) : (Packed.unpack bytes).nesting i ≤ maxDepth.toNat := by
  obtain ⟨budget, ops, -, -, grown, rfl⟩ := Generator.grown_of_structuredProgram h
  rw [Program.nesting_eq_foldl, Packed.opcodes_unpack_join_byte]
  calc _ ≤ 0 + maxDepth.toNat :=
        (grown.shallow (.nil _)).within 0 _ (List.take_prefix _ ops)
    _ = maxDepth.toNat := Nat.zero_add _

/-- Whatever the words from which a structured program was made with a greatest depth, in every
state that steps, runs and their failures lead to, under either policy, at most as many loops are
open as that depth says; a negative depth allows none. -/
theorem structured_programs_nest_within_depth {maxInstructions maxDepth : Int}
    {words rest : Supply} {bytes : List UInt8}
    (made : Generator.structuredProgram maxInstructions maxDepth words = .ok (bytes, rest)) :
    ∀ size cells, StepSize.ofInt size = .ok cells → ∀ policy eof input s,
      let m : Machine := { program := Packed.unpack bytes, policy, eof }
      m.Reachable (State.initial cells input) s → (s.loops.depth : Int) ≤ max maxDepth 0 := by
  intro size cells valid policy eof input s m reachable
  have pos : 0 < cells := (StepSize.ofInt_eq_ok_iff.mp valid).2.1
  have nested : m.Nested s := reachable.nested (Machine.valid_initial m pos input)
    (Machine.nested_initial m cells input)
  have hdepth : s.loops.depth = (Packed.unpack bytes).nesting s.ip := by
    rw [← LoopStack.length_toList, nested, Program.length_openLoops]
  rw [hdepth, ← Int.toNat_eq_max]
  exact Int.ofNat_le.mpr (Generator.nesting_le_of_structuredProgram made s.ip)

/-- From these words the generator makes `+[[]-]-]`. The loop end in the body of the inner loop
closes it, and the end meant for it closes the outer loop. Two loops are open after three steps,
as many as the greatest depth allows. -/
theorem structured_program_at_greatest_depth :
    let words : Supply := .listed [0x70000000, 0x66000000, 0, 0xE6000000, 0, 0x60000000,
      0xE6000000, 0, 0x40000000, 0xFB000000, 0]
    let m : Machine :=
      { program := Packed.unpack [0x24, 0x41, 0x51, 0x51], policy := .strict, eof := .zero }
    (∃ rest, Generator.structuredProgram 8 2 words = .ok ([0x24, 0x41, 0x51, 0x51], rest)) ∧
    m.program.loopEnd? 2 = some 3 ∧ m.program.loopEnd? 1 = some 5 ∧ m.program.Stray 7 ∧
    ∃ s, m.Reachable (State.initial 1 []) s ∧ s.loops.toList = [1, 2] ∧
      (s.loops.depth : Int) ≤ max 2 0 := by
  intro words m
  obtain ⟨rest, made⟩ : ∃ rest,
      Generator.structuredProgram 8 2 words = .ok ([0x24, 0x41, 0x51, 0x51], rest) :=
    Draw.exists_of_result (by decide +kernel)
  have valid : StepSize.ofInt 1 = .ok 1 := rfl
  obtain ⟨s, reachable, hloops⟩ : ∃ s, m.Reachable (State.initial 1 []) s ∧
      s.loops.toList = [1, 2] :=
    ⟨_, .stepped (.stepped (.stepped .fresh rfl) rfl) rfl, rfl⟩
  have hdepth := structured_programs_nest_within_depth made 1 1 valid .strict .zero [] s reachable
  exact ⟨⟨rest, made⟩, rfl, rfl, Program.stray_iff.mpr ⟨rfl, rfl⟩, s, reachable, hloops, hdepth⟩

end NibTape

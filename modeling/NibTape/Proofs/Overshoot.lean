import Mathlib.Data.Rat.Floor
import NibTape.Proofs.Generation
import NibTape.Proofs.Packing

/-!
# How far structured programs pass their budget

A sequence has its budget as soon as it is long enough, and only a loop can make it too long: a
loop adds three opcodes besides its body, whatever is left of the budget. A body may pass its own
budget in the same way, so one might fear that loops in loops add up.

They do not, since the budget of a body is at most half of what is left. With one or two opcodes
left there is hardly a body, and with more of them the half that is not spent on the body takes
up most of what the loop adds. So a sequence passes its budget by two opcodes for each level of
loops, by two for each opcode of the budget, and never by more than five.
-/

namespace NibTape.Fuzz

open NibTape.Random

/-- How many opcodes a sequence may have beyond its budget. -/
def excess (budget depth : Nat) : Nat := min (2 * min budget depth) 5

theorem excess_le (budget depth : Nat) : excess budget depth ≤ min (2 * depth) 5 := by
  rw [excess]
  omega

/-- A loop with a body that passes its budget still leaves the sequence around it within bounds:
of the opcodes left, the body was given at most half. -/
theorem loop_within_excess {budget depth inner left : Nat} (pos : 0 < left) (le : left ≤ budget)
    (share : inner ≤ left / 2) :
    inner + excess inner depth + 3 ≤ left + excess budget (depth + 1) := by
  rw [excess, excess]
  omega

/-- A sequence that has grown from one within bounds has its budget and is within bounds. -/
theorem Grown.length_bounds {budget depth : Nat} {made result : List Opcode}
    (grown : Grown budget depth made result) :
    budget ≤ result.length ∧ result.length ≤ max made.length (budget + excess budget depth) := by
  induction grown with
  | full reached => exact ⟨reached, Nat.le_max_left _ _⟩
  | piece short _ _ ih =>
      rw [List.length_append, List.length_singleton] at ih
      omega
  | @loop budget depth inner made body _ short share _ _ inside further =>
      have hloop : inner + excess inner depth + 3 ≤
          (budget - made.length) + excess budget (depth + 1) :=
        loop_within_excess (by omega) (Nat.sub_le _ _) share
      have hadded : (made ++ Opcode.loopStart :: (body ++ [.decrVal, .loopEnd])).length =
          made.length + (body.length + 3) := by simp
      rw [List.length_nil] at inside
      rw [hadded] at further
      omega

namespace Generator

/-- A structured program is not empty, and has at most three bytes more than its budget needs. -/
theorem length_structuredProgram {maxInstructions maxDepth : Int} {words rest : Supply}
    {bytes : List UInt8}
    (h : structuredProgram maxInstructions maxDepth words = .ok (bytes, rest)) :
    0 < bytes.length ∧ 2 * (bytes.length : Int) ≤ maxInstructions + 6 := by
  obtain ⟨budget, ops, one_le, le, grown, rfl⟩ := grown_of_structuredProgram h
  obtain ⟨hlow, hhigh⟩ := grown.length_bounds
  have hexcess := excess_le budget maxDepth.toNat
  have hbytes := Packed.length_join (ops.map Opcode.byte)
  rw [List.length_map] at hbytes
  rw [List.length_nil] at hhigh
  omega

/-- Whatever the words that choices are made from, a structured sequence has its budget of
instructions, and beyond it at most two for each level of loops and at most five in all. So a
structured program, which is made unless there are too few words, is not empty, and it has
little more than half as many bytes as instructions were allowed. -/
theorem structured_programs_overshoot_little (words : Supply) :
    (∀ (budget : Nat) (depth : Int) ops rest,
      instructions budget depth.toNat words = .ok (ops, rest) →
        budget ≤ ops.length ∧ (ops.length : Int) ≤ budget + min (2 * max depth 0) 5) ∧
    ∀ maxInstructions maxDepth : Int, 1 ≤ maxInstructions →
      structuredProgram maxInstructions maxDepth words = .error .outOfWords ∨
      ∃ bytes rest, structuredProgram maxInstructions maxDepth words = .ok (bytes, rest) ∧
        bytes ≠ [] ∧ (bytes.length : Int) ≤ ⌈((maxInstructions : ℚ) + 5) / 2⌉ := by
  constructor
  · intro budget depth ops rest h
    obtain ⟨hlow, hhigh⟩ := (grown_of_instructions h).length_bounds
    have hexcess := excess_le budget depth.toNat
    refine ⟨hlow, ?_⟩
    rw [List.length_nil] at hhigh
    omega
  · intro maxInstructions maxDepth pos
    cases h : structuredProgram maxInstructions maxDepth words with
    | error e => exact .inl (congrArg _ (failsDry_structuredProgram pos maxDepth words e h))
    | ok r =>
        obtain ⟨bytes, rest⟩ := r
        obtain ⟨nonempty, hlength⟩ := length_structuredProgram h
        refine .inr ⟨bytes, rest, rfl, List.ne_nil_of_length_pos nonempty, ?_⟩
        have hcast : 2 * ((bytes.length : Int) : ℚ) ≤ (maxInstructions : ℚ) + 6 := by
          exact_mod_cast hlength
        apply Int.le_ceil_iff.mpr
        linarith

/-- From these words the generator makes `[[[-]-]-]`, nine instructions on a budget of four, as
many as are allowed beyond it, and packs them in five bytes. -/
theorem structured_program_passes_its_budget :
    let words : Supply := .listed [0x60000000, 0xE6000000, 0, 0x80000000, 0xE6000000, 0,
      0x40000000, 0xE6000000, 0, 0]
    let bytes : List UInt8 := [0x44, 0x45, 0x15, 0x15, 0x18]
    (∃ rest, structuredProgram 4 3 words = .ok (bytes, rest)) ∧ bytes ≠ [] ∧
    (bytes.length : Int) ≤ ⌈(((4 : Int) : ℚ) + 5) / 2⌉ ∧
    ∃ words' ops rest, instructions 4 (3 : Int).toNat words' = .ok (ops, rest) ∧
      ops.length = 4 + 5 ∧ (ops.length : Int) ≤ 4 + min (2 * max 3 0) 5 := by
  intro words bytes
  obtain ⟨rest, made⟩ : ∃ rest, structuredProgram 4 3 words = .ok (bytes, rest) :=
    Draw.exists_of_result (by decide +kernel)
  obtain ⟨-, programs⟩ := structured_programs_overshoot_little words
  obtain hdry | ⟨bytes', rest', made', hne, hle⟩ := programs 4 3 (by decide)
  · rw [made] at hdry
    cases hdry
  · obtain ⟨rfl, -⟩ : bytes = bytes' ∧ rest = rest' := by
      simpa using made.symm.trans made'
    let words' : Supply := .listed [0xE6000000, 0, 0x80000000, 0xE6000000, 0, 0x40000000,
      0xE6000000, 0, 0]
    obtain ⟨rest₂, made₂⟩ : ∃ rest, instructions 4 (3 : Int).toNat words' =
        .ok ([.loopStart, .loopStart, .loopStart, .decrVal, .loopEnd, .decrVal, .loopEnd,
          .decrVal, .loopEnd], rest) :=
      Draw.exists_of_result (by decide +kernel)
    obtain ⟨sequences, -⟩ := structured_programs_overshoot_little words'
    exact ⟨⟨rest, made⟩, hne, hle, words', _, rest₂, made₂, rfl, (sequences 4 3 _ _ made₂).2⟩

end Generator

end NibTape.Fuzz

import NibTape.Proofs.Generation
import NibTape.Proofs.Recurrence

/-!
# Programs from a seed

A seeded generator always has another word, so a choice made from it can only fail by being
refused again and again. Numbers in a range are refused only if the word has its highest bit set,
and so is a loop where none may be nested any deeper. There are not so many such words in a row,
or in every second place, as there are tries.

So from a seed every generator makes its programs, as many as are asked for. How many words that
takes depends on the words; what is kept through all the choices is that the supply is a seeded
generator at some place in its sequence.
-/

namespace NibTape

namespace Binary64

theorem roundDiv_le (num den : Nat) : roundDiv num den ≤ num / den + 1 := by
  simp only [roundDiv]
  split
  · omega
  · split
    · omega
    · split <;> omega

theorem ltNat_of_neg {m n : Nat} {e : Int} (negative : e < 0)
    (h : m < n * Nat.pow 2 (-e).toNat) : (finite false m e).ltNat n = true := by
  rw [ltNat, if_neg (by decide), if_neg (Int.not_le.mpr negative)]
  exact decide_eq_true h

/-- Rounding does not take a ratio from below 50 to 56. -/
theorem ltNat_ofRatio {num : Nat} (h : num < 50 * Nat.pow 2 53) :
    (ofRatio false num (Nat.pow 2 53)).ltNat 56 = true := by
  have pos : ∀ e : Int, 0 < Nat.pow 2 (-e).toNat := fun e => Nat.two_pow_pos _
  rw [ofRatio]
  split
  · exact ltNat_of_neg (by decide) (Nat.mul_pos (by decide) (pos minExponent))
  · have hden : (Nat.pow 2 53).log2 = 53 := by decide
    have hlog : num.log2 < 59 := (Nat.log2_lt ‹_›).mpr (Nat.lt_trans h (by decide))
    -- only that the last place is small enough matters
    have hexp : exponentFor num (Nat.pow 2 53) ≤ -47 := by
      simp only [exponentFor, hden, minExponent]
      omega
    generalize exponentFor num (Nat.pow 2 53) = e at hexp
    have hscaled : scaled num (Nat.pow 2 53) e < 56 * Nat.pow 2 (-e).toNat := by
      have hquot : num * Nat.pow 2 (-e).toNat / Nat.pow 2 53 ≤ 50 * Nat.pow 2 (-e).toNat := by
        apply Nat.div_le_of_le_mul
        calc num * Nat.pow 2 (-e).toNat
            ≤ 50 * Nat.pow 2 53 * Nat.pow 2 (-e).toNat := Nat.mul_le_mul_right _ h.le
          _ = Nat.pow 2 53 * (50 * Nat.pow 2 (-e).toNat) := by
            rw [Nat.mul_assoc, Nat.mul_left_comm]
      have := roundDiv_le (num * Nat.pow 2 (-e).toNat) (Nat.pow 2 53)
      have := pos e
      rw [scaled, if_neg (by omega)]
      omega
    by_cases hfull : scaled num (Nat.pow 2 53) e = Nat.pow 2 53
    · have hplace : Nat.pow 2 (-e).toNat = 2 * Nat.pow 2 (-(e + 1)).toNat := by
        have hcount : (-e).toNat = (-(e + 1)).toNat + 1 := by omega
        rw [hcount]
        exact Nat.mul_comm _ 2
      have hhalf : Nat.pow 2 53 = 2 * Nat.pow 2 52 := rfl
      simp only [if_pos hfull]
      rw [if_neg (by simp only [maxExponent]; omega)]
      exact ltNat_of_neg (by omega) (by omega)
    · simp only [if_neg hfull]
      rw [if_neg (by simp only [maxExponent]; omega)]
      exact ltNat_of_neg (by omega) hscaled

end Binary64

namespace Random

variable {ws : Array UInt32} {p n : Nat} {s : Supply}

/-- A supply that is about to give out a word of a sequence, and then the ones after it. -/
def Supply.At (ws : Array UInt32) (p : Nat) (s : Supply) : Prop :=
  ∃ generator, s = .seeded generator ∧ generator.At ws p

theorem Supply.at_ofSeed (seed : Int) : ∃ ws p, (Supply.ofSeed seed).At ws p := by
  obtain ⟨ws, here⟩ := Twister.at_ofSeed seed
  exact ⟨ws, _, _, rfl, here⟩

theorem Supply.At.patience_eq (here : s.At ws p) : s.patience = 20000 := by
  obtain ⟨generator, rfl, -⟩ := here
  rfl

/-- The word at a place of a sequence, as it is given out. -/
def given (ws : Array UInt32) (p : Nat) : UInt32 := Twister.temper (Twister.stream ws p)

/-- The highest bit of the word at a place is zero. -/
def Low (ws : Array UInt32) (p : Nat) : Prop := Twister.bit (given ws p) 31 = false

theorem Low.lt (low : Low ws p) : (given ws p).toNat < 2 ^ 31 := by
  have hmsb : (given ws p).toBitVec.msb = false := by
    rw [BitVec.msb_eq_getLsbD_last]
    exact low
  have := BitVec.msb_eq_false_iff_two_mul_lt.mp hmsb
  change 2 * (given ws p).toNat < 2 ^ 32 at this
  omega

namespace Draw

variable {α β : Type}

/-- A choice that can be made from every seeded generator. -/
def Lasts (x : Draw α) : Prop :=
  ∀ ws p s, s.At ws p → ∃ a q t, x s = .ok (a, t) ∧ t.At ws q

theorem lasts_pure (a : α) : (pure a : Draw α).Lasts := by
  intro ws p s here
  exact ⟨a, p, s, rfl, here⟩

theorem Lasts.bind {x : Draw α} {f : α → Draw β} (first : x.Lasts)
    (after : ∀ a, (f a).Lasts) : (x >>= f).Lasts := by
  intro ws p s here
  obtain ⟨a, q, t, hx, there⟩ := first ws p s here
  obtain ⟨b, r, u, hf, last⟩ := after a ws q t there
  exact ⟨b, r, u, bind_eq_ok.mpr ⟨a, t, hx, hf⟩, last⟩

theorem word_eq (here : s.At ws p) : ∃ t, word s = .ok (given ws p, t) ∧ t.At ws (p + 1) := by
  obtain ⟨generator, rfl, place⟩ := here
  obtain ⟨hword, next⟩ := place.next
  refine ⟨.seeded generator.next.2, ?_, _, rfl, next⟩
  rw [given, ← hword]
  rfl

theorem Lasts.times {d : Draw α} (lasts : d.Lasts) (n : Nat) : (times d n).Lasts := by
  induction n with
  | zero => exact lasts_pure []
  | succ n ih => exact lasts.bind fun a => ih.bind fun rest => lasts_pure (a :: rest)

/-! ### Numbers in a range -/

/-- A number of at most 32 binary digits is made from one word. -/
theorem bits_eq {count : Nat} (hcount : count ≤ 32) (here : s.At ws p) :
    ∃ t, bits count s = .ok ((given ws p).toNat >>> (32 - count), t) ∧ t.At ws (p + 1) := by
  obtain ⟨t, hword, there⟩ := word_eq here
  have hwhole : (count - 1) / 32 = 0 := by omega
  refine ⟨t, ?_, there⟩
  rw [bits, hwhole]
  exact bind_eq_ok.mpr ⟨_, t, hword, rfl⟩

/-- A word with its highest bit zero is never refused. -/
theorem shift_lt_of_low (hn : 0 < n) (hcount : bitLength n ≤ 32) (low : Low ws p) :
    (given ws p).toNat >>> (32 - bitLength n) < n := by
  have hlog : 2 ^ n.log2 ≤ n := Nat.log2_self_le hn.ne'
  have hlength : bitLength n = n.log2 + 1 := if_neg hn.ne'
  have hpow : 2 ^ 31 = 2 ^ n.log2 * 2 ^ (32 - bitLength n) := by
    rw [← Nat.pow_add]
    congr 1
    omega
  have hlt := low.lt
  rw [hpow] at hlt
  rw [Nat.shiftRight_eq_div_pow]
  exact Nat.lt_of_lt_of_le (Nat.div_lt_of_lt_mul (by rwa [Nat.mul_comm])) hlog

theorem belowWithin_eq (hn : 0 < n) (hcount : bitLength n ≤ 32) {tries : Nat}
    (here : s.At ws p) (accepted : ∃ i < tries, Low ws (p + i)) :
    ∃ v q t, belowWithin (bitLength n) n tries s = .ok (v, t) ∧ t.At ws q := by
  induction tries generalizing p s with
  | zero =>
      obtain ⟨i, hi, -⟩ := accepted
      omega
  | succ tries ih =>
      obtain ⟨t, hbits, there⟩ := bits_eq hcount here
      by_cases hlt : (given ws p).toNat >>> (32 - bitLength n) < n
      · refine ⟨(given ws p).toNat >>> (32 - bitLength n), _, t,
          bind_eq_ok.mpr ⟨_, t, hbits, ?_⟩, there⟩
        rw [if_pos hlt]
        rfl
      · obtain ⟨i, hi, low⟩ := accepted
        cases i with
        | zero => exact (hlt (shift_lt_of_low hn hcount low)).elim
        | succ i =>
            have later : Low ws (p + 1 + i) := by rwa [Nat.add_assoc, Nat.add_comm 1]
            obtain ⟨v, q, u, hbelow, last⟩ := ih there ⟨i, by omega, later⟩
            refine ⟨v, q, u, bind_eq_ok.mpr ⟨_, t, hbits, ?_⟩, last⟩
            rw [if_neg hlt]
            exact hbelow

theorem lasts_below (hn : 0 < n) (h : n < 2 ^ 32) : (below n).Lasts := by
  intro ws p s here
  have hcount : bitLength n ≤ 32 := by
    rw [bitLength, if_neg hn.ne']
    exact (Nat.log2_lt hn.ne').mpr h
  have accepted := (Twister.exists_low ws p).1
  rw [below, here.patience_eq]
  exact belowWithin_eq hn hcount here accepted

theorem lasts_oneTo {bound : Int} (pos : 1 ≤ bound) (h : bound < 2 ^ 32) :
    (oneTo bound).Lasts := by
  rw [oneTo, if_neg (by omega)]
  exact (lasts_below (by omega) (by omega)).bind fun v => lasts_pure _

/-- A fraction is made from two words; it is below one half if the first has its highest bit
zero. -/
theorem fraction_eq (here : s.At ws p) :
    ∃ k t, fraction s = .ok (k, t) ∧ t.At ws (p + 2) ∧ (Low ws p → k < Nat.pow 2 52) := by
  obtain ⟨t, hfirst, there⟩ := word_eq here
  obtain ⟨u, hsecond, last⟩ := word_eq there
  refine ⟨_, u, bind_eq_ok.mpr ⟨_, t, hfirst, bind_eq_ok.mpr ⟨_, u, hsecond, rfl⟩⟩, last, ?_⟩
  intro low
  have hfirst' := low.lt
  have hsecond' := (given ws (p + 1)).toNat_lt
  simp only [Nat.shiftRight_eq_div_pow]
  change _ * 2 ^ 26 + _ < 2 ^ 52
  omega

theorem lasts_fraction : fraction.Lasts := by
  intro ws p s here
  obtain ⟨k, t, hfraction, there, -⟩ := fraction_eq here
  exact ⟨k, _, t, hfraction, there⟩

end Draw

end Random

namespace Fuzz

open NibTape.Random

variable {ws : Array UInt32} {p : Nat} {s : Supply}

namespace Choice

/-- The first three kinds make up 56 percent, and none of them is a loop. -/
theorem opcode?_exceeding {x : Binary64} (small : x.ltNat 56 = true) :
    ∃ op, (exceeding x 0 all).opcode? = some op := by
  by_cases first : x.ltNat 18 = true
  · exact ⟨.incrPtr, by simp [exceeding, all, weight, first, opcode?]⟩
  · by_cases second : x.ltNat 36 = true
    · exact ⟨.decrPtr, by simp [exceeding, all, weight, first, second, opcode?]⟩
    · exact ⟨.incrVal, by simp [exceeding, all, weight, first, second, small, opcode?]⟩

/-- Of the fractions below one half none stands for a loop. -/
theorem opcode?_ofFraction {k : Nat} (h : k < Nat.pow 2 52) :
    ∃ op, (ofFraction k).opcode? = some op := by
  apply opcode?_exceeding
  apply Binary64.ltNat_ofRatio
  have : Nat.pow 2 53 = 2 * Nat.pow 2 52 := rfl
  omega

theorem draw_eq (here : s.At ws p) :
    ∃ c t, Choice.draw s = .ok (c, t) ∧ t.At ws (p + 2) ∧
      (Low ws p → ∃ op, c.opcode? = some op) := by
  obtain ⟨k, t, hfraction, there, small⟩ := Draw.fraction_eq here
  exact ⟨ofFraction k, t, Draw.bind_eq_ok.mpr ⟨k, t, hfraction, rfl⟩, there,
    fun low => opcode?_ofFraction (small low)⟩

end Choice

namespace Generator

/-- There are rounds enough if there is one for every word in a row that chooses a loop where none
may be nested, and as many again for every instruction and every level that is still to come. -/
theorem extend_eq (depth : Nat) (made : Array Opcode) {rounds budget wait : Nat}
    (here : s.At ws p) (small : budget < 2 ^ 32) (chosen : ∃ i < wait, Low ws (p + 2 * i))
    (enough : wait + (budget - made.size + depth) * 20000 ≤ rounds) :
    ∃ result q t, extend rounds budget depth made s = .ok (result, t) ∧ t.At ws q := by
  induction rounds generalizing budget depth wait made p s with
  | zero =>
      obtain ⟨i, hi, -⟩ := chosen
      omega
  | succ rounds ih =>
      obtain ⟨i, hi, low⟩ := chosen
      rw [extend_succ]
      split
      · exact ⟨made, p, s, rfl, here⟩
      · obtain ⟨choice, t, hchoice, there, plain⟩ := Choice.draw_eq here
        cases hop : choice.opcode? with
        -- an opcode or a loop brings the sequence nearer to its budget, and a new wait begins
        | some op =>
            obtain ⟨result, q, u, hextend, last⟩ := ih depth (made.push op) there small
              (Twister.exists_low ws (p + 2)).2 (by rw [Array.size_push]; omega)
            refine ⟨result, q, u, Draw.bind_eq_ok.mpr ⟨choice, t, hchoice, ?_⟩, last⟩
            rw [hop]
            exact hextend
        | none =>
            cases depth with
            -- no loop may be nested here, so nothing is added and the wait goes on
            | zero =>
                cases i with
                | zero =>
                    obtain ⟨op, hop'⟩ := plain low
                    rw [hop] at hop'
                    cases hop'
                | succ i =>
                    have later : Low ws (p + 2 + 2 * i) := by
                      rwa [Nat.mul_succ, Nat.add_comm (2 * i), ← Nat.add_assoc] at low
                    obtain ⟨result, q, u, hextend, last⟩ := ih 0 made there small
                      ⟨i, (by omega : i < wait - 1), later⟩ (by omega)
                    refine ⟨result, q, u, Draw.bind_eq_ok.mpr ⟨choice, t, hchoice, ?_⟩, last⟩
                    rw [hop]
                    exact hextend
            | succ depth =>
                obtain ⟨inner, q, u, hinner, inside⟩ :=
                  Draw.lasts_below (n := (budget - made.size) / 2 + 1) (by omega) (by omega)
                    ws _ t there
                have hlt := Draw.below_lt hinner
                obtain ⟨body, r, v, hbody, behind⟩ := ih depth #[] inside
                  (by omega : inner < 2 ^ 32) (Twister.exists_low ws q).2
                  (by rw [Array.size_empty]; omega)
                obtain ⟨result, r', w, hextend, last⟩ := ih (depth + 1)
                  (made.push .loopStart ++ body ++ #[.decrVal, .loopEnd]) behind small
                  (Twister.exists_low ws r).2
                  (by rw [Array.size_append, Array.size_append, Array.size_push]; omega)
                refine ⟨result, r', w, Draw.bind_eq_ok.mpr ⟨choice, t, hchoice, ?_⟩, last⟩
                rw [hop]
                exact Draw.bind_eq_ok.mpr ⟨inner, u, hinner,
                  Draw.bind_eq_ok.mpr ⟨body, v, hbody, hextend⟩⟩

theorem lasts_instructions {budget : Nat} (small : budget < 2 ^ 32) (depth : Nat) :
    (instructions budget depth).Lasts := by
  intro ws p s here
  have enough : 20000 + (budget - (#[] : Array Opcode).size + depth) * 20000 ≤
      (budget + depth + 1) * s.patience := by
    rw [here.patience_eq, Array.size_empty]
    omega
  obtain ⟨made, q, t, hextend, there⟩ :=
    extend_eq depth #[] here small (Twister.exists_low ws p).2 enough
  refine ⟨made.toList, q, t, ?_, there⟩
  rw [instructions, hextend]
  rfl

/-- With the default limits, every generator makes a program from a seed. -/
theorem lasts_drawDefault (g : Generator) : g.drawDefault.Lasts := by
  have random : (randomBytes maxLength).Lasts :=
    (Draw.lasts_oneTo (by decide) (by decide)).bind fun length =>
      ((Draw.lasts_below (by decide) (by decide)).times length).bind fun _ => Draw.lasts_pure _
  have structured : (structuredProgram maxInstructions maxDepth).Lasts := by
    intro ws p s here
    obtain ⟨budget, q, t, hbudget, there⟩ :=
      Draw.lasts_oneTo (by decide : 1 ≤ maxInstructions) (by decide) ws p s here
    obtain ⟨ops, r, u, hops, last⟩ := lasts_instructions
      (Nat.lt_of_le_of_lt (Int.ofNat_le.mp (Draw.oneTo_bounds hbudget).2) (by decide))
      maxDepth.toNat ws q t there
    exact ⟨_, r, u, Draw.bind_eq_ok.mpr ⟨budget, t, hbudget,
      Draw.bind_eq_ok.mpr ⟨ops, u, hops, rfl⟩⟩, last⟩
  cases g with
  | random => exact random
  | structured => exact structured
  | mixed =>
      refine Draw.lasts_fraction.bind fun k => ?_
      split
      · exact random
      · exact structured

/-- From a seed every generator makes as many programs as are asked for. -/
theorem exists_programs (g : Generator) (n : Nat) (seed : Int) :
    ∃ programs t, Draw.times g.drawDefault n (.ofSeed seed) = .ok (programs, t) := by
  obtain ⟨ws, p, here⟩ := Supply.at_ofSeed seed
  obtain ⟨programs, q, t, hprograms, -⟩ := (lasts_drawDefault g).times n ws p _ here
  exact ⟨programs, t, hprograms⟩

end Generator

end Fuzz

end NibTape

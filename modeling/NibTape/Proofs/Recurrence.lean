import Mathlib.Algebra.Algebra.ZMod
import Mathlib.Algebra.Polynomial.AlgebraMap
import Mathlib.Algebra.Polynomial.Expand
import Mathlib.FieldTheory.Finite.Basic
import NibTape.Random.Twister

/-!
# The recurrence of the Mersenne twister

The words of a generator are one sequence, in which every word follows from three earlier ones:
the word a round before it, the word after that, and one in between. A round keeps the last 624
words of the sequence, and each renewal of a place moves that window on by one word.

Bit by bit the recurrence is linear over the field of two elements. It lets every bit be traced
back to the highest one, and so gives a polynomial in the shift of sequences that takes the
highest bit of the words that are given out to zero everywhere. The value of the polynomial at
one is one, while it would take a sequence of ones to itself. So the highest bit is not one all
along a stretch that is longer than the degree; nor is it in every second place, since the
square of the polynomial is the polynomial of the double shift.

Nothing here depends on the seed.
-/

namespace NibTape.Random

open Polynomial

namespace Twister

variable {ws : Array UInt32} {t : Twister} {i k p : Nat}

/-! ### One sequence of words -/

/-- The words of a generator before they are tempered, starting with those of its round. -/
def stream (ws : Array UInt32) (k : Nat) : UInt32 :=
  if _ : k < size then wordAt ws k
  else
    stream ws (k - size + shift) ^^^ blend (stream ws (k - size)) (stream ws (k - size + 1))
termination_by k
decreasing_by all_goals simp only [size, shift] at *; omega

theorem stream_of_lt (h : k < size) : stream ws k = wordAt ws k := by
  rw [stream, dif_pos h]

theorem stream_add_size (ws : Array UInt32) (k : Nat) :
    stream ws (k + size) =
      stream ws (k + shift) ^^^ blend (stream ws k) (stream ws (k + 1)) := by
  rw [stream, dif_neg (by omega), Nat.add_sub_cancel]

/-- A round holds the words of a sequence from a place on, each where its place in a round is. -/
structure Window (x : Nat → UInt32) (start : Nat) (ws : Array UInt32) : Prop where
  full : ws.size = size
  words : ∀ k, start ≤ k → k < start + size → wordAt ws (k % size) = x k

theorem wordAt_set_self (h : i < ws.size) (w : UInt32) :
    wordAt (ws.setIfInBounds i w) i = w := by
  simp [wordAt, h]

theorem wordAt_set_of_ne {j : Nat} (h : j ≠ i) (w : UInt32) :
    wordAt (ws.setIfInBounds i w) j = wordAt ws j := by
  simp [wordAt, Array.getD_eq_getD_getElem?, Array.getElem?_setIfInBounds_ne h.symm]

/-- Renewing the oldest word moves the window on. -/
theorem Window.renew {ws₀ : Array UInt32} (window : Window (stream ws₀) p ws) :
    Window (stream ws₀) (p + 1) (renew ws (p % Twister.size)) := by
  have hplace : p % Twister.size < ws.size := by
    rw [window.full]
    exact Nat.mod_lt _ (by decide)
  refine ⟨by rw [Twister.renew, Array.size_setIfInBounds, window.full], ?_⟩
  intro k low high
  have hwords := window.words
  simp only [Twister.size] at *
  by_cases hk : k = p + 624
  · subst hk
    rw [Nat.add_mod_right, Twister.renew, wordAt_set_self hplace]
    have older : wordAt ws ((p % 624 + 397) % 624) = stream ws₀ (p + 397) := by
      rw [Nat.mod_add_mod]
      exact hwords _ (by omega) (by omega)
    have oldest : wordAt ws (p % 624) = stream ws₀ p := hwords _ (by omega) (by omega)
    have next : wordAt ws ((p % 624 + 1) % 624) = stream ws₀ (p + 1) := by
      rw [Nat.mod_add_mod]
      exact hwords _ (by omega) (by omega)
    simp only [Twister.size, shift]
    rw [older, oldest, next]
    exact (stream_add_size ws₀ p).symm
  · rw [Twister.renew, wordAt_set_of_ne (by omega)]
    exact hwords k (by omega) (by omega)

/-- A new round holds the words that come next. -/
theorem Window.twist {ws₀ : Array UInt32} {r : Nat}
    (window : Window (stream ws₀) (Twister.size * r) ws) :
    Window (stream ws₀) (Twister.size * (r + 1)) (twist ws) := by
  have after : ∀ j ≤ Twister.size, Window (stream ws₀) (Twister.size * r + j)
      ((List.range j).foldl Twister.renew ws) := by
    intro j
    induction j with
    | zero => exact fun _ => window
    | succ j ih =>
        intro hj
        have moved := (ih (by omega)).renew
        rw [Nat.mul_add_mod, Nat.mod_eq_of_lt hj] at moved
        rw [List.range_succ, List.foldl_append]
        exact moved
  exact after Twister.size (Nat.le_refl _)

/-- A generator that is about to give out a word of a sequence, and then the ones after it. -/
structure At (ws₀ : Array UInt32) (p : Nat) (t : Twister) : Prop where
  round : ∃ r, Window (stream ws₀) (size * r) t.words ∧ p = size * r + t.used
  used : t.used ≤ size

theorem At.next {ws₀ : Array UInt32} (here : At ws₀ p t) :
    t.next.1 = temper (stream ws₀ p) ∧ At ws₀ (p + 1) t.next.2 := by
  obtain ⟨⟨r, window, rfl⟩, used⟩ := here
  by_cases spent : size ≤ t.used
  · -- the round is used up, so the word is the first of a new one
    have hused : t.used = size := Nat.le_antisymm used spent
    have fresh := window.twist
    have hword : wordAt (Twister.twist t.words) 0 = stream ws₀ (size * (r + 1)) := by
      have first := fresh.words _ (Nat.le_refl _) (Nat.lt_add_of_pos_right (by decide))
      rwa [Nat.mul_mod_right] at first
    rw [Twister.next, if_pos spent, hused]
    rw [Nat.mul_succ] at hword
    dsimp only
    rw [hword]
    refine ⟨rfl, ⟨r + 1, ?_, ?_⟩, ?_⟩
    · dsimp only
      exact fresh
    · rw [Nat.mul_succ]
    · exact (by decide : 1 ≤ size)
  · have hlt : t.used < size := Nat.lt_of_not_le spent
    have hword : wordAt t.words t.used = stream ws₀ (size * r + t.used) := by
      have at_used := window.words (size * r + t.used) (Nat.le_add_right _ _) (by omega)
      rwa [Nat.mul_add_mod, Nat.mod_eq_of_lt hlt] at at_used
    rw [Twister.next, if_neg spent]
    exact ⟨congrArg temper hword, ⟨r, window, rfl⟩, hlt⟩

/-! ### Seeds -/

theorem size_foldl_push {α : Type} (f : Array UInt32 → α → UInt32) (l : List α)
    (ws : Array UInt32) :
    (l.foldl (fun ws a => ws.push (f ws a)) ws).size = ws.size + l.length := by
  induction l generalizing ws with
  | nil => rfl
  | cons a l ih =>
      rw [List.foldl_cons, ih, Array.size_push, List.length_cons]
      omega

theorem size_spread (seed : UInt32) : (spread seed).size = size := by
  rw [spread, size_foldl_push, List.length_range]
  rfl

theorem size_advanceIndex (ws : Array UInt32) (i : Nat) :
    (advanceIndex ws i).1.size = ws.size := by
  unfold advanceIndex
  split
  · exact Array.size_setIfInBounds
  · rfl

theorem size_mixKey (key : Array UInt32) (count i j : Nat) (ws : Array UInt32) :
    (mixKey key count i j ws).1.size = ws.size := by
  induction count generalizing i j ws with
  | zero => rfl
  | succ count ih => rw [mixKey, ih, size_advanceIndex, Array.size_setIfInBounds]

theorem size_mixRound (count i : Nat) (ws : Array UInt32) :
    (mixRound count i ws).size = ws.size := by
  induction count generalizing i ws with
  | zero => rfl
  | succ count ih => rw [mixRound, ih, size_advanceIndex, Array.size_setIfInBounds]

/-- A seeded generator gives out the sequence of its round, from the second round on. -/
theorem at_ofSeed (seed : Int) : ∃ ws, At ws size (ofSeed seed) := by
  refine ⟨(ofSeed seed).words, ⟨0, ⟨?_, ?_⟩, ?_⟩, ?_⟩
  · rw [ofSeed, ofKey, Array.size_setIfInBounds, size_mixRound, size_mixKey, size_spread]
  · intro k _ high
    rw [Nat.mod_eq_of_lt (by omega), stream_of_lt (by omega)]
  · rfl
  · exact Nat.le_refl size

/-! ### Bits -/

def bit (w : UInt32) (i : Nat) : Bool := w.toBitVec.getLsbD i

theorem bit_xor (v w : UInt32) (i : Nat) : bit (v ^^^ w) i = (bit v i ^^ bit w i) := by
  simp [bit]

theorem and_one_eq_zero_iff (w : UInt32) : w &&& 1 = 0 ↔ bit w 0 = false := by
  rw [← UInt32.toNat_inj, UInt32.toNat_and, bit, BitVec.getLsbD]
  simp [Nat.testBit_zero]

/-- The mask is added if the second word is odd. -/
theorem bit_blend (v w : UInt32) (i : Nat) :
    bit (blend v w) i =
      (bit (((v &&& 0x80000000) ||| (w &&& 0x7FFFFFFF)) >>> 1) i ^^
        (bit 0x9908B0DF i && bit w 0)) := by
  have lowest : bit ((v &&& 0x80000000) ||| (w &&& 0x7FFFFFFF)) 0 = bit w 0 := by simp [bit]
  have none : bit 0 i = false := by simp [bit]
  simp only [blend, bit_xor, and_one_eq_zero_iff, lowest]
  cases bit w 0 <;> simp [none]

theorem bit_blend_of_lt (v w : UInt32) (h : i < 30) :
    bit (blend v w) i = (bit w (i + 1) ^^ (bit 0x9908B0DF i && bit w 0)) := by
  have high : ∀ i < 30, (0x80000000#32).getLsbD (i + 1) = false := by decide
  have low : ∀ i < 30, (0x7FFFFFFF#32).getLsbD (i + 1) = true := by decide
  rw [bit_blend]
  simp [bit, high i h, low i h, Nat.add_comm 1 i, -BitVec.getLsbD_eq_getElem]

theorem bit_blend_30 (v w : UInt32) : bit (blend v w) 30 = bit v 31 := by
  rw [bit_blend]
  simp [bit]

theorem bit_blend_31 (v w : UInt32) : bit (blend v w) 31 = bit w 0 := by
  rw [bit_blend]
  simp [bit]

/-- Four bits of a word make up the highest bit of what is given out. -/
theorem bit_temper_31 (w : UInt32) :
    bit (temper w) 31 = ((bit w 31 ^^ bit w 24) ^^ (bit w 16 ^^ bit w 27)) := by
  simp [temper, bit]

/-! ### Sequences of bits -/

/-- A sequence without its first member. -/
def later : Module.End (ZMod 2) (Nat → ZMod 2) where
  toFun s k := s (k + 1)
  map_add' _ _ := rfl
  map_smul' _ _ := rfl

theorem later_pow (d : Nat) (s : Nat → ZMod 2) (k : Nat) : (later ^ d) s k = s (k + d) := by
  induction d generalizing k with
  | zero => rfl
  | succ d ih =>
      rw [pow_succ', Module.End.mul_apply]
      change (later ^ d) s (k + 1) = _
      rw [ih]
      congr 1
      omega

/-- What a polynomial in the shift makes of a sequence. -/
noncomputable def act (f : (ZMod 2)[X]) (s : Nat → ZMod 2) : Nat → ZMod 2 := aeval later f s

variable {f g : (ZMod 2)[X]} {s : Nat → ZMod 2}

theorem act_add (f g : (ZMod 2)[X]) (s : Nat → ZMod 2) : act (f + g) s = act f s + act g s := by
  rw [act, map_add, LinearMap.add_apply]
  rfl

theorem act_mul (f g : (ZMod 2)[X]) (s : Nat → ZMod 2) : act (f * g) s = act f (act g s) := by
  rw [act, map_mul, Module.End.mul_apply]
  rfl

theorem act_comm (f g : (ZMod 2)[X]) (s : Nat → ZMod 2) : act f (act g s) = act g (act f s) := by
  rw [← act_mul, mul_comm, act_mul]

theorem act_apply_add (f : (ZMod 2)[X]) (s u : Nat → ZMod 2) :
    act f (s + u) = act f s + act f u := map_add _ _ _

theorem act_apply_zero (f : (ZMod 2)[X]) : act f 0 = 0 := map_zero _

theorem act_C (a : ZMod 2) (s : Nat → ZMod 2) : act (C a) s = a • s := by
  rw [act, aeval_C, Module.algebraMap_end_apply]

theorem act_X_pow (d : Nat) (s : Nat → ZMod 2) (k : Nat) : act (X ^ d) s k = s (k + d) := by
  rw [act, map_pow, aeval_X, later_pow]

theorem act_X (s : Nat → ZMod 2) (k : Nat) : act X s k = s (k + 1) := by
  rw [act, aeval_X]
  rfl

/-- A truth value in the field of two elements. -/
def element (b : Bool) : ZMod 2 := if b then 1 else 0

theorem element_xor (a b : Bool) : element (a ^^ b) = element a + element b := by
  revert a b
  decide

theorem element_and (a b : Bool) : element (a && b) = element a * element b := by
  revert a b
  decide

theorem element_add_self (s : Nat → ZMod 2) : s + s = 0 :=
  funext fun k => CharTwo.add_self_eq_zero (s k)

/-- One bit of all words of a sequence. -/
def bits (ws : Array UInt32) (i k : Nat) : ZMod 2 := element (bit (stream ws k) i)

/-- The sum of two later members. -/
@[irreducible] noncomputable def sumOf (m n : Nat) : (ZMod 2)[X] := X ^ m + X ^ n

theorem act_sumOf (m n : Nat) (s : Nat → ZMod 2) (k : Nat) :
    act (sumOf m n) s k = s (k + m) + s (k + n) := by
  rw [sumOf, act_add, Pi.add_apply, act_X_pow, act_X_pow]

theorem natDegree_sumOf {m n : Nat} (h : n ≤ m) : (sumOf m n).natDegree ≤ m := by
  rw [sumOf]
  exact natDegree_add_le_of_degree_le (natDegree_X_pow_le m) ((natDegree_X_pow_le n).trans h)

theorem eval_sumOf (m n : Nat) : (sumOf m n).eval 1 = 0 := by
  simp only [sumOf, eval_add, eval_pow, eval_X, one_pow]
  decide

/-- The word that comes a round later and the one that it is combined with, as a sum. -/
noncomputable def gap : (ZMod 2)[X] := sumOf size shift

theorem act_gap (ws : Array UInt32) (i k : Nat) :
    act gap (bits ws i) k = element (bit (blend (stream ws k) (stream ws (k + 1))) i) := by
  have twice : ∀ a b : ZMod 2, a + b + a = b := by decide
  rw [gap, act_sumOf, bits, bits, stream_add_size ws k, bit_xor, element_xor]
  exact twice _ _

theorem act_gap_31 (ws : Array UInt32) : act gap (bits ws 31) = act X (bits ws 0) := by
  funext k
  rw [act_gap, bit_blend_31, act_X]
  rfl

theorem act_gap_30 (ws : Array UInt32) : act gap (bits ws 30) = bits ws 31 := by
  funext k
  rw [act_gap, bit_blend_30]
  rfl

/-- Where the bits of the mask enter. -/
def masked (i : Nat) : ZMod 2 := element (bit 0x9908B0DF i)

theorem act_X_bits (ws : Array UInt32) (h : i < 30) :
    act X (bits ws (i + 1)) =
      act gap (bits ws i) + act (C (masked i)) (act gap (bits ws 31)) := by
  have twice : ∀ a b : ZMod 2, a = a + b + b := by decide
  funext k
  rw [act_C, Pi.add_apply, Pi.smul_apply, act_gap, act_gap, bit_blend_of_lt _ _ h, bit_blend_31,
    element_xor, element_and, act_X]
  exact twice _ _

/-! ### All bits from one -/

/-- A polynomial that makes of the highest bit a lower one, later by one place more than its
number. -/
noncomputable def trace : Nat → (ZMod 2)[X]
  | 0 => gap
  | i + 1 => gap * trace i + C (masked i) * (X ^ (i + 1) * gap)

theorem act_trace (ws : Array UInt32) (h : i ≤ 30) :
    act (trace i) (bits ws 31) = act (X ^ (i + 1)) (bits ws i) := by
  induction i with
  | zero => rw [zero_add, pow_one, trace, act_gap_31]
  | succ i ih =>
      calc act (trace (i + 1)) (bits ws 31)
          = act gap (act (X ^ (i + 1)) (bits ws i)) +
              act (C (masked i)) (act (X ^ (i + 1)) (act gap (bits ws 31))) := by
            rw [trace, act_add, act_mul, act_mul, act_mul, ih (by omega)]
        _ = act (X ^ (i + 1)) (act X (bits ws (i + 1))) := by
            rw [act_X_bits ws (by omega), act_apply_add, act_comm gap, act_comm (C _)]
        _ = act (X ^ (i + 1 + 1)) (bits ws (i + 1)) := by rw [← act_mul, ← pow_succ]

/-- A polynomial that takes the highest bits to zero. -/
noncomputable def annihilator : (ZMod 2)[X] := X ^ 31 + gap * trace 30

theorem act_annihilator_31 (ws : Array UInt32) : act annihilator (bits ws 31) = 0 := by
  rw [annihilator, act_add, act_mul, act_trace ws (le_refl 30), act_comm gap, act_gap_30]
  exact element_add_self _

/-- Later by 31 places, every bit is taken to zero. -/
theorem act_annihilator (ws : Array UInt32) (h : i ≤ 30) :
    act (X ^ 31 * annihilator) (bits ws i) = 0 := by
  have hpow : (X : (ZMod 2)[X]) ^ 31 = X ^ (30 - i) * X ^ (i + 1) := by
    rw [← pow_add]
    congr 1
    omega
  rw [mul_comm, act_mul, hpow, act_mul, ← act_trace ws h, act_comm annihilator,
    act_comm annihilator, act_annihilator_31, act_apply_zero, act_apply_zero]

def tops (ws : Array UInt32) (k : Nat) : ZMod 2 := element (bit (temper (stream ws k)) 31)

theorem tops_eq (ws : Array UInt32) :
    tops ws = (bits ws 31 + bits ws 24) + (bits ws 16 + bits ws 27) := by
  funext k
  rw [tops, bit_temper_31, element_xor, element_xor, element_xor]
  rfl

theorem act_tops (ws : Array UInt32) : act (X ^ 31 * annihilator) (tops ws) = 0 := by
  have h31 : act (X ^ 31 * annihilator) (bits ws 31) = 0 := by
    rw [act_mul, act_annihilator_31, act_apply_zero]
  rw [tops_eq, act_apply_add, act_apply_add, act_apply_add, h31, act_annihilator ws (by decide),
    act_annihilator ws (by decide), act_annihilator ws (by decide)]
  simp

/-! ### A zero among the highest bits -/

theorem natDegree_gap : gap.natDegree ≤ 624 := natDegree_sumOf (by decide)

theorem natDegree_trace (i : Nat) : (trace i).natDegree ≤ 624 * (i + 1) := by
  induction i with
  | zero => exact natDegree_gap
  | succ i ih =>
      refine natDegree_add_le_of_degree_le ?_ ?_
      · refine natDegree_mul_le.trans ?_
        have := natDegree_gap
        omega
      · refine (natDegree_C_mul_le _ _).trans (natDegree_mul_le.trans ?_)
        have := natDegree_gap
        have : ((X : (ZMod 2)[X]) ^ (i + 1)).natDegree ≤ i + 1 := natDegree_X_pow_le (i + 1)
        omega

theorem natDegree_annihilator : (X ^ 31 * annihilator).natDegree < 20000 := by
  have hX : ((X : (ZMod 2)[X]) ^ 31).natDegree ≤ 31 := natDegree_X_pow_le 31
  have hproduct : (gap * trace 30).natDegree ≤ 19968 :=
    natDegree_mul_le.trans (Nat.add_le_add natDegree_gap (natDegree_trace 30))
  have hkiller : annihilator.natDegree ≤ 19968 :=
    natDegree_add_le_of_degree_le (hX.trans (by decide)) hproduct
  have := natDegree_mul_le (p := (X : (ZMod 2)[X]) ^ 31) (q := annihilator)
  omega

theorem eval_gap : gap.eval 1 = 0 := eval_sumOf size shift

theorem eval_annihilator : (X ^ 31 * annihilator).eval 1 = 1 := by
  simp only [annihilator, eval_mul, eval_add, eval_pow, eval_X, eval_gap, one_pow, zero_mul,
    add_zero, mul_one]

/-- A sequence that a polynomial takes to zero, step by step of some width, is not one all along,
if the polynomial is one at one. -/
theorem exists_eq_zero {d : Nat} (hact : aeval (later ^ d) f s = 0) (hone : f.eval 1 = 1) {n : Nat}
    (hdegree : f.natDegree < n) (p : Nat) : ∃ i < n, s (p + d * i) = 0 := by
  by_contra! never
  have ones : ∀ i < n, s (p + d * i) = 1 := by
    have two : ∀ a : ZMod 2, a ≠ 0 → a = 1 := by decide
    exact fun i hi => two _ (never i hi)
  have hsum : aeval (later ^ d) f s p = f.eval 1 := by
    rw [aeval_eq_sum_range' hdegree, eval_eq_sum_range' hdegree, LinearMap.sum_apply,
      Finset.sum_apply]
    refine Finset.sum_congr rfl fun i hi => ?_
    rw [LinearMap.smul_apply, Pi.smul_apply, ← pow_mul, later_pow,
      ones i (Finset.mem_range.mp hi), one_pow]
    rfl
  rw [hact, hone] at hsum
  exact zero_ne_one hsum

/-- Among so many words in a row there is one with the highest bit zero, and so there is among
every second one. -/
theorem exists_low (ws : Array UInt32) (p : Nat) :
    (∃ i < 20000, bit (temper (stream ws (p + i))) 31 = false) ∧
    ∃ i < 20000, bit (temper (stream ws (p + 2 * i))) 31 = false := by
  have hact : aeval later (X ^ 31 * annihilator) (tops ws) = 0 := act_tops ws
  have htwice : aeval (later ^ 2) (X ^ 31 * annihilator) (tops ws) = 0 := by
    rw [← expand_aeval, ZMod.expand_card, map_pow, pow_two, Module.End.mul_apply, hact, map_zero]
  have low : ∀ {k}, tops ws k = 0 → bit (temper (stream ws k)) 31 = false := by
    intro k h
    rw [tops, element] at h
    by_contra hbit
    rw [if_pos (by simpa using hbit)] at h
    exact absurd h (by decide)
  obtain ⟨i, hi, hlow⟩ := exists_eq_zero (d := 1) (by rwa [pow_one]) eval_annihilator
    natDegree_annihilator p
  obtain ⟨j, hj, hlow'⟩ := exists_eq_zero htwice eval_annihilator natDegree_annihilator p
  rw [one_mul] at hlow
  exact ⟨⟨i, hi, low hlow⟩, j, hj, low hlow'⟩

end Twister

end NibTape.Random

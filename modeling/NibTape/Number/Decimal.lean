import NibTape.Number.Literal

/-!
# Numbers in texts

A number is written with all its digits, but only if they are no more than a literal may have.
A text that shows a number is therefore not always made. What is said in place of a message that
cannot be made names the number of digits that are allowed, and nothing else.
-/

namespace NibTape.Decimal

def isWritable (n : Int) : Bool := (Nat.toDigits 10 n.natAbs).length ≤ Literal.maxDigits

def text? (n : Int) : Option String := if isWritable n then some (toString n) else none

/-- What is said in place of a message that cannot be made. -/
def tooLong : String :=
  s!"Exceeds the limit ({Literal.maxDigits} digits) for integer string conversion; " ++
  "use sys.set_int_max_str_digits() to increase the limit"

theorem tooLong_eq :
    tooLong = "Exceeds the limit (4300 digits) for integer string conversion; " ++
      "use sys.set_int_max_str_digits() to increase the limit" := by
  decide

theorem isWritable_iff {n : Int} :
    isWritable n = true ↔ n.natAbs < Nat.pow 10 Literal.maxDigits := by
  rw [isWritable, decide_eq_true_iff, Nat.length_toDigits_le_iff (by decide) (by decide),
    ← Nat.pow_eq]

/-- Numbers of nine digits can be written. -/
theorem billion_le : Nat.pow 10 9 ≤ Nat.pow 10 Literal.maxDigits := by
  rw [Nat.pow_eq, Nat.pow_eq]
  exact Nat.pow_le_pow_right (by decide) (by decide)

theorem isWritable_eq_false_iff {n : Int} :
    isWritable n = false ↔ Nat.pow 10 Literal.maxDigits ≤ n.natAbs := by
  rw [← Bool.not_eq_true, isWritable_iff, Nat.not_lt]

/-- Minus a one with as many zeros as a literal may have digits is too long. -/
theorem neg_pow_too_long :
    Nat.pow 10 Literal.maxDigits ≤ (-(Nat.pow 10 Literal.maxDigits : Int)).natAbs ∧
      -(Nat.pow 10 Literal.maxDigits : Int) ≤ 0 :=
  ⟨Nat.le_of_eq ((Int.natAbs_neg _).trans (Int.natAbs_natCast _)).symm,
    Int.neg_nonpos_of_nonneg (Int.natCast_nonneg _)⟩

theorem text?_eq_some {n : Int} (h : isWritable n = true) : text? n = some (toString n) :=
  if_pos h

theorem text?_eq_none {n : Int} (h : isWritable n = false) : text? n = none := by
  rw [text?, h]
  rfl

end NibTape.Decimal

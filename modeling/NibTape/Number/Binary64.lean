/-!
# Double-precision numbers from exact ratios

A finite double is an integer times a power of two, so it can be handled exactly with
integers. Rounding takes the nearest double and, halfway between two, the one with the
even significand; what is too large becomes infinite. Nothing here uses machine floating
point. Powers are written with `Nat.pow`, which means the same whatever a module imports.
-/

namespace NibTape

/-- A double-precision number by its magnitude: `significand * 2 ^ exponent`. The sign is
kept apart, so that a negative zero is told from a positive one. -/
inductive Binary64 where
  | finite (negative : Bool) (significand : Nat) (exponent : Int)
  | infinite (negative : Bool)
  | nan
  deriving DecidableEq, Repr

namespace Binary64

def minExponent : Int := -1074

def maxExponent : Int := 971

/-- A quotient rounded to the nearest integer, halves to the even one. -/
def roundDiv (num den : Nat) : Nat :=
  let q := num / den
  let r := num % den
  if 2 * r < den then q
  else if den < 2 * r then q + 1
  else if q % 2 = 0 then q else q + 1

/-- The number `num / den * 2 ^ (-exponent)` rounded to an integer. -/
def scaled (num den : Nat) (exponent : Int) : Nat :=
  if 0 ≤ exponent then roundDiv num (den * Nat.pow 2 exponent.toNat)
  else roundDiv (num * Nat.pow 2 (-exponent).toNat) den

/-- The exponent at which a positive ratio has a significand of 53 bits, or the smallest
exponent if that is larger. -/
def exponentFor (num den : Nat) : Int :=
  let guess : Int := (num.log2 : Int) - den.log2 - 52
  -- The ratio lies between half and twice `2 ^ (guess + 52)`.
  let below :=
    if 0 ≤ guess + 52 then num < den * Nat.pow 2 (guess + 52).toNat
    else num * Nat.pow 2 (-(guess + 52)).toNat < den
  max minExponent (if below then guess - 1 else guess)

/-- The double nearest to a ratio; the denominator must not be zero. -/
def ofRatio (negative : Bool) (num den : Nat) : Binary64 :=
  if num = 0 then .finite negative 0 minExponent
  else
    let e := exponentFor num den
    let m := scaled num den e
    let (m, e) := if m = Nat.pow 2 53 then (Nat.pow 2 52, e + 1) else (m, e)
    if maxExponent < e then .infinite negative else .finite negative m e

/-- The double nearest to `digits * 10 ^ exponent`. -/
def ofDecimal (negative : Bool) (digits : Nat) (exponent : Int) : Binary64 :=
  if 0 ≤ exponent then ofRatio negative (digits * Nat.pow 10 exponent.toNat) 1
  else ofRatio negative digits (Nat.pow 10 (-exponent).toNat)

def scaleBy (x : Binary64) (k : Nat) : Binary64 :=
  match x with
  | .finite negative m e =>
    if 0 ≤ e then ofRatio negative (m * k * Nat.pow 2 e.toNat) 1
    else ofRatio negative (m * k) (Nat.pow 2 (-e).toNat)
  | x => x

def ltNat (x : Binary64) (n : Nat) : Bool :=
  match x with
  | .finite negative m e =>
    if negative then m != 0 || n != 0
    else if 0 ≤ e then m * Nat.pow 2 e.toNat < n
    else m < n * Nat.pow 2 (-e).toNat
  | .infinite negative => negative
  | .nan => false

def bits : Binary64 → Nat
  | .finite negative m e =>
    let sign := if negative then Nat.pow 2 63 else 0
    if m < Nat.pow 2 52 then sign + m
    else sign + (e - minExponent + 1).toNat * Nat.pow 2 52 + (m - Nat.pow 2 52)
  | .infinite negative => (if negative then Nat.pow 2 63 else 0) + 2047 * Nat.pow 2 52
  | .nan => 2047 * Nat.pow 2 52 + Nat.pow 2 51

/-- The magnitude times a power of ten, rounded to an integer with halves to even. -/
def shifted (places m : Nat) (e : Int) : Nat :=
  if 0 ≤ e then m * Nat.pow 10 places * Nat.pow 2 e.toNat
  else roundDiv (m * Nat.pow 10 places) (Nat.pow 2 (-e).toNat)

/-- The number with one digit after the point, halves going to the even digit. -/
def oneDecimal : Binary64 → String
  | .finite negative m e =>
    let tenths := shifted 1 m e
    (if negative then "-" else "") ++ toString (tenths / 10) ++ "." ++ toString (tenths % 10)
  | .infinite negative => if negative then "-inf" else "inf"
  | .nan => "nan"

end Binary64

end NibTape

import NibTape.Number.Binary64

/-!
# The shortest decimal text of a double

Of all decimals that round to a given double, the text shows one with the fewest digits,
and of those the nearest. Positional notation is used for decimal exponents from -4 to
15; outside of that range an exponent of at least two digits follows.
-/

namespace NibTape.Binary64

/-- The power of ten below a positive number `m * 2 ^ e`: the largest `k`, no smaller
than the start, with `10 ^ k ≤ m * 2 ^ e`. -/
def decimalExponent (m : Nat) (e : Int) : Int :=
  let num := if 0 ≤ e then m * Nat.pow 2 e.toNat else m
  let den := if 0 ≤ e then 1 else Nat.pow 2 (-e).toNat
  if den ≤ num then ((Nat.toDigits 10 (num / den)).length : Int) - 1
  else
    -- The quotient `den / num`, rounded up, has as many digits as the exponent needs.
    let q := (den + num - 1) / num
    Int.negOfNat (Nat.toDigits 10 (q - 1)).length

def lastPlace (count m : Nat) (e : Int) : Int := decimalExponent m e - ((count : Int) - 1)

/-- A positive number in units of `10 ^ last`, as a ratio. -/
def inUnits (m : Nat) (e last : Int) : Nat × Nat :=
  let num := if 0 ≤ e then m * Nat.pow 2 e.toNat else m
  let den := if 0 ≤ e then 1 else Nat.pow 2 (-e).toNat
  if 0 ≤ last then (num, den * Nat.pow 10 last.toNat)
  else (num * Nat.pow 10 (-last).toNat, den)

def readsBack (m : Nat) (e : Int) (digits : Nat) (last : Int) : Bool :=
  ofDecimal false digits last = .finite false m e

/-- The decimal of `count` digits that rounds to a positive number, if there is one; of
two, the nearer. Only the two neighbours of the number have to be looked at. -/
def decimalOf? (count m : Nat) (e : Int) : Option (Nat × Int) :=
  let last := lastPlace count m e
  let (num, den) := inUnits m e last
  let below := num / den
  match readsBack m e below last, readsBack m e (below + 1) last with
  | true, true => some (roundDiv num den, last)
  | true, false => some (below, last)
  | false, true => some (below + 1, last)
  | false, false => none

/-- The first decimal, from `count` digits up, that rounds to a positive number; the
seventeenth digit always suffices. -/
def shortestFrom (m : Nat) (e : Int) : (remaining count : Nat) → Nat × Int
  | 0, count =>
    let last := lastPlace count m e
    let (num, den) := inUnits m e last
    (roundDiv num den, last)
  | remaining + 1, count =>
    (decimalOf? count m e).getD (shortestFrom m e remaining (count + 1))

/-- The digits of a positive number without trailing zeros, and the exponent of the
first of them. -/
def shortestDigits (m : Nat) (e : Int) : List Char × Int :=
  let (digits, last) := shortestFrom m e 16 1
  let text := Nat.toDigits 10 digits
  let first := last + (text.length : Int) - 1
  let kept := (text.reverse.dropWhile (· = '0')).reverse
  (if kept.isEmpty then ['0'] else kept, first)

/-- Digits with a point after the place of the given exponent. -/
def positional (digits : List Char) (first : Int) : List Char :=
  if first < 0 then
    '0' :: '.' :: List.replicate ((-first).toNat - 1) '0' ++ digits
  else
    let whole := first.toNat + 1
    let padded := digits ++ List.replicate (whole - digits.length) '0'
    let fraction := padded.drop whole
    padded.take whole ++ '.' :: (if fraction.isEmpty then ['0'] else fraction)

/-- Digits with a point after the first and a signed exponent of two digits or more. -/
def scientific (digits : List Char) (first : Int) : List Char :=
  let head := digits.take 1
  let tail := digits.drop 1
  let exponent := Nat.toDigits 10 first.natAbs
  head ++ (if tail.isEmpty then [] else '.' :: tail) ++
    'e' :: (if first < 0 then '-' else '+') ::
      (List.replicate (2 - exponent.length) '0' ++ exponent)

def text : Binary64 → String
  | .finite negative m e =>
    let magnitude :=
      if m = 0 then ['0', '.', '0']
      else
        let (digits, first) := shortestDigits m e
        if -4 ≤ first && first < 16 then positional digits first
        else scientific digits first
    String.ofList (if negative then '-' :: magnitude else magnitude)
  | .infinite negative => if negative then "-inf" else "inf"
  | .nan => "nan"

end NibTape.Binary64

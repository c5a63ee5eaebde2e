import NibTape.Number.Decimal
import NibTape.Random.Twister

/-!
# Drawing random choices from words

Random choices are made from a supply of 32-bit words. A supply is a list of words, which
may be too short, or a seeded generator, which always has another word.

Some choices refuse what they drew and draw again. A list is used up in the end. A seeded
generator is given a number of tries instead, which is more than it ever needs.

Whatever is shown for every supply holds for every sequence of choices, since a list of
words can be written down for each.
-/

namespace NibTape.Random

/-- Words still to be drawn. -/
inductive Supply where
  | listed (words : List UInt32)
  | seeded (generator : Twister)

namespace Supply

def ofSeed (seed : Int) : Supply := .seeded (.ofSeed seed)

def next? : Supply → Option (UInt32 × Supply)
  | listed [] => none
  | listed (w :: rest) => some (w, listed rest)
  | seeded generator => some (generator.next.1, seeded generator.next.2)

/-- How often a choice may be made until one is accepted. A list has fewer words than that,
and a seeded generator never gives so many words in a row that are refused. -/
def patience : Supply → Nat
  | listed words => words.length + 1
  | seeded _ => 20000

end Supply

inductive DrawError where
  | outOfWords
  /-- A number from one to a bound below one was asked for. -/
  | emptyRange (bound : Int)
  deriving DecidableEq, Repr

def DrawError.message : DrawError → String
  | outOfWords => "out of words"
  | emptyRange bound =>
    let range? : Option String := do
      let above ← Decimal.text? (bound + 1)
      let last ← Decimal.text? bound
      return s!"empty range for randrange() (1, {above}, {last})"
    range?.getD Decimal.tooLong

/-- A random choice: it takes words from a supply or fails. -/
abbrev Draw (α : Type) := StateT Supply (Except DrawError) α

namespace Draw

def word : Draw UInt32 := fun s =>
  match s.next? with
  | some (w, s) => .ok (w, s)
  | none => .error .outOfWords

def bitLength (n : Nat) : Nat := if n = 0 then 0 else n.log2 + 1

/-- A number of whole words, the lowest first, and of some digits above them, which are the
high digits of a last word. -/
def digits (top : Nat) : (whole : Nat) → Draw Nat
  | 0 => do
    let w ← word
    return w.toNat >>> (32 - top)
  | whole + 1 => do
    let w ← word
    let above ← digits top whole
    return w.toNat + Nat.pow 2 32 * above

/-- A number of some binary digits, at least one. -/
def bits (count : Nat) : Draw Nat :=
  let whole := (count - 1) / 32
  digits (count - 32 * whole) whole

/-- Draws numbers of some digits until one is below `n`, at most `tries` times. -/
def belowWithin (count n : Nat) : (tries : Nat) → Draw Nat
  | 0 => throw .outOfWords
  | tries + 1 => do
    let v ← bits count
    if v < n then return v else belowWithin count n tries

def below (n : Nat) : Draw Nat := fun s => belowWithin (bitLength n) n s.patience s

def oneTo (bound : Int) : Draw Nat :=
  if bound ≤ 0 then throw (.emptyRange bound)
  else do
    let v ← below bound.toNat
    return v + 1

/-- A fraction of one, as its numerator over `2 ^ 53`. -/
def fraction : Draw Nat := do
  let a ← word
  let b ← word
  return (a.toNat >>> 5) * Nat.pow 2 26 + (b.toNat >>> 6)

def times {α : Type} (d : Draw α) : Nat → Draw (List α)
  | 0 => return []
  | n + 1 => do
    let a ← d
    let rest ← times d n
    return a :: rest

/-- The supply after a failed draw. A draw that lacked words has used all there were; an
empty range is found before any word is used. -/
def afterFailure (s : Supply) : DrawError → Supply
  | .outOfWords => .listed []
  | .emptyRange _ => s

/-- Makes a choice a number of times, going on after each failure. -/
def attempts {α : Type} (d : Draw α) : Nat → Supply → List (Except DrawError α)
  | 0, _ => []
  | n + 1, s =>
    match d s with
    | .ok (a, s) => .ok a :: attempts d n s
    | .error e => .error e :: attempts d n (afterFailure s e)

end Draw

end NibTape.Random

/-!
# The Mersenne twister

A generator of 32-bit words with a state of 624 words, seeded by a list of words. Only
the sequence of words is described here; how choices are made from words is in
`NibTape.Random.Draw`.

Nothing is claimed about the quality of the sequence.
-/

namespace NibTape.Random

/-- The state of the generator: the words of a round and how many of them were used. -/
structure Twister where
  words : Array UInt32
  used : Nat

namespace Twister

/-- The number of words in a round. -/
def size : Nat := 624

/-- The distance between the words that are combined. -/
def shift : Nat := 397

def wordAt (ws : Array UInt32) (i : Nat) : UInt32 := ws.getD i 0

/-- A word mixed with its own upper bits. -/
def fold (w : UInt32) : UInt32 := w ^^^ (w >>> 30)

/-- A round of words that follow from one. -/
def spread (seed : UInt32) : Array UInt32 :=
  (List.range (size - 1)).foldl (fun ws i =>
    ws.push (1812433253 * fold (wordAt ws i) + UInt32.ofNat (i + 1))) #[seed]

/-- The next index of a round when its first word is skipped. -/
def advanceIndex (ws : Array UInt32) (i : Nat) : Array UInt32 × Nat :=
  if size ≤ i + 1 then (ws.setIfInBounds 0 (wordAt ws (size - 1)), 1) else (ws, i + 1)

/-- Mixes a key into a round, word by word from index `i` of the round and `j` of the
key. -/
def mixKey (key : Array UInt32) : (count i j : Nat) → Array UInt32 → Array UInt32 × Nat
  | 0, i, _, ws => (ws, i)
  | count + 1, i, j, ws =>
    let w := (wordAt ws i ^^^ (fold (wordAt ws (i - 1)) * 1664525)) + wordAt key j +
      UInt32.ofNat j
    let (ws, i) := advanceIndex (ws.setIfInBounds i w) i
    mixKey key count i (if key.size ≤ j + 1 then 0 else j + 1) ws

/-- Mixes a round with itself, word by word from index `i`. -/
def mixRound : (count i : Nat) → Array UInt32 → Array UInt32
  | 0, _, ws => ws
  | count + 1, i, ws =>
    let w := (wordAt ws i ^^^ (fold (wordAt ws (i - 1)) * 1566083941)) - UInt32.ofNat i
    let (ws, i) := advanceIndex (ws.setIfInBounds i w) i
    mixRound count i ws

def ofKey (key : Array UInt32) : Twister :=
  let (ws, i) := mixKey key (max size key.size) 1 0 (spread 19650218)
  { words := (mixRound (size - 1) i ws).setIfInBounds 0 0x80000000, used := size }

/-- The 32-bit words of a number, the least significant first. -/
def wordsOf : (count : Nat) → Nat → List UInt32
  | 0, _ => []
  | count + 1, n => UInt32.ofNat (n % 2 ^ 32) :: wordsOf count (n / 2 ^ 32)

/-- The generator seeded by a number, whose sign does not matter. -/
def ofSeed (seed : Int) : Twister :=
  let n := seed.natAbs
  let count := if n = 0 then 1 else n.log2 / 32 + 1
  ofKey (wordsOf count n).toArray

/-- What two neighbours contribute: the highest bit of the first and the other bits of the
second, shifted by one. -/
def blend (v w : UInt32) : UInt32 :=
  let y := (v &&& 0x80000000) ||| (w &&& 0x7FFFFFFF)
  (y >>> 1) ^^^ (if y &&& 1 = 0 then 0 else 0x9908B0DF)

/-- Puts the word in its place that comes a round later there. -/
def renew (ws : Array UInt32) (i : Nat) : Array UInt32 :=
  ws.setIfInBounds i
    (wordAt ws ((i + shift) % size) ^^^ blend (wordAt ws i) (wordAt ws ((i + 1) % size)))

def twist (ws : Array UInt32) : Array UInt32 := (List.range size).foldl renew ws

def temper (y : UInt32) : UInt32 :=
  let y := y ^^^ (y >>> 11)
  let y := y ^^^ ((y <<< 7) &&& 0x9D2C5680)
  let y := y ^^^ ((y <<< 15) &&& 0xEFC60000)
  y ^^^ (y >>> 18)

def next (t : Twister) : UInt32 × Twister :=
  let t := if size ≤ t.used then { words := twist t.words, used := 0 } else t
  (temper (wordAt t.words t.used), { t with used := t.used + 1 })

end Twister

end NibTape.Random

import NibTape.Fuzz.Outcome
import NibTape.Number.Binary64

/-!
# Counting test results

Four counters are kept over a series of comparisons; the number of agreements and the
divergence rate are computed from them. The rate is a percentage in double precision: the
quotient is rounded first, then its hundredfold.
-/

namespace NibTape.Fuzz

/-- The counters of a series. They may start at any numbers. -/
structure Statistics where
  total : Int := 0
  divergences : Int := 0
  strictOnlyFailures : Int := 0
  exhausted : Int := 0
  deriving DecidableEq, Repr

namespace Statistics

def tick (b : Bool) : Int := if b then 1 else 0

def record (s : Statistics) (c : Comparison) : Statistics :=
  { total := s.total + 1
    exhausted := s.exhausted + tick (c.strict.isExhausted || c.permissive.isExhausted)
    strictOnlyFailures :=
      s.strictOnlyFailures + tick (c.strict.isFailed && c.permissive.isCompleted)
    divergences := s.divergences + tick (!c.matched) }

def recordAll (s : Statistics) (cs : List Comparison) : Statistics := cs.foldl record s

/-- The comparisons in which the policies behaved alike. -/
def agreements (s : Statistics) : Int := s.total - s.divergences

/-- The share of divergences in percent; zero of an empty series. -/
def rate (s : Statistics) : Binary64 :=
  if s.total ≤ 0 then .finite false 0 Binary64.minExponent
  else
    (Binary64.ofRatio (s.divergences < 0) s.divergences.natAbs s.total.natAbs).scaleBy 100

/-- A line of the summary: a heading filled up to a width, and what follows it. -/
def summaryLine (heading value : String) : String :=
  heading ++ String.ofList (List.replicate (27 - heading.length) ' ') ++ value ++ "\n"

def summary? (s : Statistics) : Option String := do
  let total ← Decimal.text? s.total
  let agreements ← Decimal.text? s.agreements
  let divergences ← Decimal.text? s.divergences
  let failures ← Decimal.text? s.strictOnlyFailures
  let exhausted ← Decimal.text? s.exhausted
  return "\n" ++ String.ofList (List.replicate 60 '=') ++ "\n" ++
    "Fuzzer Summary\n" ++
    String.ofList (List.replicate 40 '-') ++ "\n" ++
    summaryLine "Total tests run:" total ++
    summaryLine "Agreements:" agreements ++
    summaryLine "Divergences:" divergences ++
    summaryLine "Strict-only failures:" failures ++
    summaryLine "Step budget exhausted:" exhausted ++
    if 0 < s.divergences then "Divergence rate:        " ++ s.rate.oneDecimal ++ "%\n"
    else "\nPolicies agreed on every program!\n"

@[simp] theorem recordAll_nil (s : Statistics) : s.recordAll [] = s := rfl

@[simp] theorem recordAll_cons (s : Statistics) (c : Comparison) (cs : List Comparison) :
    s.recordAll (c :: cs) = (s.record c).recordAll cs := rfl

end Statistics

end NibTape.Fuzz

import NibTape.Text.Blank
import NibTape.Text.Digit

/-!
# Decimal integer literals

A literal is an optional sign and decimal digits of any script, with single underscores
allowed between digits. A literal of more than 4300 digits is refused; leading zeros
count, underscores do not.

Blanks are no part of a literal. Callers trim them, each with its own set of blanks.
-/

namespace NibTape.Literal

/-- The largest number of digits in a literal. -/
def maxDigits : Nat := 4300

/-- The values of the digits of an unsigned literal. The flag says whether a digit came
just before: there an underscore may follow, and the literal may end. -/
def digits? : (afterDigit : Bool) → List Char → Option (List Nat)
  | afterDigit, [] => if afterDigit then some [] else none
  | afterDigit, c :: rest =>
    match Text.digitValue? c with
    | some d => (digits? true rest).map (d :: ·)
    | none => if afterDigit && c == '_' then digits? false rest else none

/-- The number that a list of digits spells, the most significant first. -/
def ofDigits (digits : List Nat) : Nat := digits.foldl (fun n d => 10 * n + d) 0

def natural? (text : List Char) : Option Nat :=
  match digits? false text with
  | some ds => if ds.length ≤ maxDigits then some (ofDigits ds) else none
  | none => none

def integer? : List Char → Option Int
  | '-' :: rest => (natural? rest).map fun n => -(n : Int)
  | '+' :: rest => (natural? rest).map Int.ofNat
  | text => (natural? text).map Int.ofNat

end NibTape.Literal

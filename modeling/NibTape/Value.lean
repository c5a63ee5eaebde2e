import NibTape.Number.Decimal
import NibTape.Number.Shortest
import NibTape.Text.Quoted

/-!
# Settings before they are checked

A setting may arrive as any structured value. The checks accept few of them and show
the others in their messages, in two forms: the display of a text is the text itself,
its literal form stands between quotes. Inside of a list or a dictionary every value
has its literal form. A value in which a number has too many digits has neither form.
-/

namespace NibTape

/-- A structured value. A dictionary keeps the order of its entries. -/
inductive Value where
  | null
  | bool (b : Bool)
  | int (n : Int)
  | float (x : Binary64)
  | text (s : String)
  | list (items : List Value)
  | dict (entries : List (String × Value))

namespace Value

mutual

def literal? : Value → Option String
  | null => some "None"
  | bool b => some (if b then "True" else "False")
  | int n => Decimal.text? n
  | float x => some x.text
  | text s => some (Text.quoted s)
  | list items => (literals? items).map Text.bracketed
  | dict entries =>
    (entryLiterals? entries).map fun es => "\x7b" ++ ", ".intercalate es ++ "\x7d"

def literals? : List Value → Option (List String)
  | [] => some []
  | v :: rest => do
    let first ← v.literal?
    let others ← literals? rest
    return first :: others

def entryLiterals? : List (String × Value) → Option (List String)
  | [] => some []
  | (key, v) :: rest => do
    let first ← v.literal?
    let others ← entryLiterals? rest
    return (Text.quoted key ++ ": " ++ first) :: others

end

def display? : Value → Option String
  | text s => some s
  | v => v.literal?

end Value

end NibTape

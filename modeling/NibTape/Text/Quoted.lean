import NibTape.Text.Printable

/-!
# Quoted texts and byte strings

A message shows a text or a byte string between quotes, so that blanks and controls in
it can be seen. Single quotes are used unless the content has single quotes and no
double ones. The quote in use and the backslash are escaped, tab, newline and carriage
return have short escapes, and everything else that cannot be shown is given by number.
-/

namespace NibTape.Text

def hexField (width n : Nat) : List Char :=
  let digits := Nat.toDigits 16 n
  List.replicate (width - digits.length) '0' ++ digits

def hexOfBytes (bytes : List UInt8) : String :=
  String.ofList (bytes.flatMap fun b => hexField 2 b.toNat)

/-- The quote to put around a content. -/
def quoteFor (content : List Char) : Char :=
  if content.contains '\'' && !content.contains '"' then '"' else '\''

/-- The escapes that a text and a byte string have in common; `none` for a character
that has to be shown or numbered. -/
def shortEscape? (quote c : Char) : Option (List Char) :=
  if c = quote || c = '\\' then some ['\\', c]
  else if c = '\t' then some ['\\', 't']
  else if c = '\n' then some ['\\', 'n']
  else if c = '\r' then some ['\\', 'r']
  else none

/-- The escape that gives a character by its number, in the shortest of three widths. -/
def numericEscape (c : Char) : List Char :=
  let n := c.toNat
  if n ≤ 0xFF then '\\' :: 'x' :: hexField 2 n
  else if n ≤ 0xFFFF then '\\' :: 'u' :: hexField 4 n
  else '\\' :: 'U' :: hexField 8 n

def escapeChar (quote c : Char) : List Char :=
  match shortEscape? quote c with
  | some e => e
  | none => if isPrintable c then [c] else numericEscape c

def quoted (text : String) : String :=
  let content := text.toList
  let quote := quoteFor content
  String.ofList (quote :: content.flatMap (escapeChar quote) ++ [quote])

/-- How a byte of a quoted byte string is written: as a character if it is one of ASCII's
printable ones, by number otherwise. -/
def escapeByte (quote : Char) (b : UInt8) : List Char :=
  let c := Char.ofNat b.toNat
  match shortEscape? quote c with
  | some e => e
  | none => if 0x20 ≤ b.toNat && b.toNat ≤ 0x7E then [c] else numericEscape c

/-- A byte string between quotes, marked by a leading `b`. -/
def quotedBytes (bytes : List UInt8) : String :=
  let quote := quoteFor (bytes.map fun b => Char.ofNat b.toNat)
  String.ofList ('b' :: quote :: bytes.flatMap (escapeByte quote) ++ [quote])

def bracketed (items : List String) : String :=
  "[" ++ ", ".intercalate items ++ "]"

end NibTape.Text

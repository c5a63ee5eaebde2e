import NibTape.CommandLine.Grammar
import NibTape.Text.Digit

/-!
# The words of a command line

Every word is classed before any is used. A word is plain, the separator that makes all
words after it plain, a switch of the grammar with or without an attached value, or it
looks like a switch that the grammar does not know.

A word that begins with a dash is still plain if it is the dash alone, looks like a
negative number or holds a space, unless it can be read as a known switch.
-/

namespace NibTape.CommandLine

variable {κ : Type}

/-- A classed word. -/
inductive Token (κ : Type) where
  | plain (word : List Char)
  | separator
  | known (switch : Switch κ) (spelling : List Char) (attached : Option (List Char))
  | unknown (word : List Char)

def splitEquals? (word : List Char) : Option (List Char × List Char) :=
  match word.dropWhile (· != '=') with
  | _ :: attached => some (word.takeWhile (· != '='), attached)
  | [] => none

/-- Whether a word is a dash and a decimal number, with an optional fraction. One line
break may follow. -/
def isNegativeNumber : List Char → Bool
  | '-' :: rest =>
    let rest :=
      match rest.reverse with
      | '\n' :: kept => kept.reverse
      | _ => rest
    let whole := rest.takeWhile Text.isDecimalDigit
    match rest.dropWhile Text.isDecimalDigit with
    | [] => !whole.isEmpty
    | '.' :: fraction => !fraction.isEmpty && fraction.all Text.isDecimalDigit
    | _ => false
  | _ => false

/-- The readings of a word as an abbreviated long spelling, or as a short one with its
value attached. -/
def partialReadings (g : Grammar κ) (word : List Char) :
    List (List Char × Switch κ × Option (List Char)) :=
  match word with
  | '-' :: '-' :: _ =>
    if g.abbreviations then
      let (start, attached) :=
        match splitEquals? word with
        | some (start, attached) => (start, some attached)
        | none => (word, none)
      (g.completions start).map fun (spelling, switch) => (spelling, switch, attached)
    else []
  | '-' :: c :: attached =>
    match g.lookup? ['-', c] with
    | some switch => [(['-', c], switch, some attached)]
    | none => []
  | _ => []

/-- The class of a word that no known switch accounts for. -/
def classUnknown (word : List Char) : Token κ :=
  if isNegativeNumber word || word.contains ' ' then .plain word else .unknown word

/-- A switch spelled out before an equals sign. -/
def spelledOut? (g : Grammar κ) (word : List Char) : Option (Token κ) :=
  match splitEquals? word with
  | some (spelling, attached) =>
    (g.lookup? spelling).map fun switch => .known switch spelling (some attached)
  | none => none

/-- Classes a word that begins with a dash and is neither a dash alone nor a spelling of
the grammar. -/
def classDashed (g : Grammar κ) (word : List Char) : Except UsageError (Token κ) :=
  match spelledOut? g word with
  | some token => .ok token
  | none =>
    match partialReadings g word with
    | [] => .ok (classUnknown word)
    | [(spelling, switch, attached)] => .ok (.known switch spelling attached)
    | readings =>
      .error (.ambiguous (String.ofList word) (readings.map fun r => String.ofList r.1))

/-- Classes a word before the separator. -/
def classWord (g : Grammar κ) (word : List Char) : Except UsageError (Token κ) :=
  match word with
  | '-' :: rest =>
    match g.lookup? word with
    | some switch => .ok (.known switch word none)
    | none => if rest.isEmpty then .ok (.plain word) else classDashed g word
  | _ => .ok (.plain word)

def tokens (g : Grammar κ) : List (List Char) → Except UsageError (List (Token κ))
  | [] => .ok []
  | word :: rest =>
    if word = ['-', '-'] then .ok (.separator :: rest.map .plain)
    else do
      let token ← classWord g word
      let others ← tokens g rest
      return token :: others

@[simp] theorem tokens_nil (g : Grammar κ) : tokens g [] = .ok [] := rfl

end NibTape.CommandLine

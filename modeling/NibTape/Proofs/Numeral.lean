import Mathlib.Data.List.TakeWhile
import Mathlib.Data.Nat.Digits.Defs
import NibTape.Config

/-!
# Step sizes in decimal

A step size may be given as a text: digits of any script behind an optional sign, with single
underscores between digits and blanks around all of it. The grammar is stated here on its own,
by what may stand next to what, and reading is shown to accept exactly its texts.

The reader goes through a text once and knows of what it has passed only whether a digit came
last. What it accepts behind a digit is what the grammar lets stand there: nothing, more digits,
or an underscore and more digits. No digit and no sign is a blank, so the blanks around a
literal can be told from it, however they were trimmed.
-/

namespace NibTape

namespace Text

variable {c : Char} {d : Nat} {skip : Char → Bool} {before core after text : List Char}

theorem digitValue?_eq_some (h : digitValue? c = some d) :
    ∃ start ∈ digitZeros, ∃ k < 10, c.toNat = start + k ∧ d = k := by
  obtain ⟨start, hfind, rfl⟩ := Option.map_eq_some_iff.mp h
  have hrange := List.find?_some hfind
  simp only [Bool.and_eq_true, decide_eq_true_eq] at hrange
  exact ⟨start, List.mem_of_find?_eq_some hfind, c.toNat - start, by omega, by omega, rfl⟩

/-- No script has a blank among its digits. -/
theorem isBlank_of_digit (h : digitValue? c = some d) : isBlank c = false := by
  have apart : ∀ start ∈ digitZeros, ∀ k < 10,
      (whiteSpace.has (start + k) || (0x1C ≤ start + k && start + k ≤ 0x1F)) = false := by
    decide +kernel
  obtain ⟨start, hstart, k, hk, hc, -⟩ := digitValue?_eq_some h
  change (whiteSpace.has c.toNat || (0x1C ≤ c.toNat && c.toNat ≤ 0x1F)) = false
  rw [hc]
  exact apart start hstart k hk

/-- The digits of ASCII are those of the first script. -/
theorem digitValue?_of_isDigit (h : c.isDigit = true) : digitValue? c = some (c.toNat - 48) := by
  obtain ⟨low, high⟩ : 48 ≤ c.toNat ∧ c.toNat ≤ 57 := Char.isDigit_iff_toNat.mp h
  have hrange : 48 ≤ c.toNat ∧ c.toNat < 48 + 10 := ⟨low, Nat.lt_succ_of_le high⟩
  simp [digitValue?, digitZeros, hrange]

/-- Trimming takes away nothing but what is skipped. -/
theorem exists_trim (skip : Char → Bool) (text : List Char) :
    ∃ before after, text = before ++ trim skip text ++ after ∧
      (∀ c ∈ before, skip c = true) ∧ ∀ c ∈ after, skip c = true := by
  generalize hrest : text.dropWhile skip = rest
  refine ⟨text.takeWhile skip, (rest.reverse.takeWhile skip).reverse, ?_, ?_, ?_⟩
  · have hkept : trim skip text ++ (rest.reverse.takeWhile skip).reverse = rest := by
      rw [trim, hrest, ← List.reverse_append, List.takeWhile_append_dropWhile,
        List.reverse_reverse]
    rw [List.append_assoc, hkept, ← hrest, List.takeWhile_append_dropWhile]
  · intro c hc
    exact List.mem_takeWhile_imp hc
  · intro c hc
    exact List.mem_takeWhile_imp (List.mem_reverse.mp hc)

/-- What is skipped at either end of a text in which nothing is skipped goes away. -/
theorem trim_append (hcore : core ≠ []) (kept : ∀ c ∈ core, skip c = false)
    (hbefore : ∀ c ∈ before, skip c = true) (hafter : ∀ c ∈ after, skip c = true) :
    trim skip (before ++ core ++ after) = core := by
  have start : ∀ {rest more : List Char}, rest ≠ [] → (∀ c ∈ rest, skip c = false) →
      (rest ++ more).dropWhile skip = rest ++ more := by
    intro rest more hne hrest
    obtain ⟨c, rest, rfl⟩ := List.exists_cons_of_ne_nil hne
    exact List.dropWhile_cons_of_neg (by simp [hrest c List.mem_cons_self])
  have hfront : (before ++ core ++ after).dropWhile skip = core ++ after := by
    rw [List.append_assoc, List.dropWhile_append_of_pos hbefore, start hcore kept]
  have hback : (core ++ after).reverse.dropWhile skip = core.reverse := by
    rw [List.reverse_append, List.dropWhile_append_of_pos (by simpa using hafter),
      ← List.append_nil core.reverse, start (by simpa using hcore) (by simpa using kept)]
  rw [trim, hfront, hback, List.reverse_reverse]

end Text

namespace Literal

variable {c : Char} {text : List Char} {values : List Nat} {n : Int}

/-- Digits of any script, with single underscores between them, and the values of the digits. -/
inductive Digits : (text : List Char) → (values : List Nat) → Prop where
  | last {c : Char} {d : Nat} (digit : Text.digitValue? c = some d) : Digits [c] [d]
  | more {c : Char} {d : Nat} {text : List Char} {values : List Nat}
      (digit : Text.digitValue? c = some d) (further : Digits text values) :
      Digits (c :: text) (d :: values)
  | parted {c : Char} {d : Nat} {text : List Char} {values : List Nat}
      (digit : Text.digitValue? c = some d) (further : Digits text values) :
      Digits (c :: '_' :: text) (d :: values)

/-- The integer that is spelled by at most 4300 digits behind an optional sign. -/
inductive Spells : (text : List Char) → (n : Int) → Prop where
  | unsigned {text : List Char} {values : List Nat} (digits : Digits text values)
      (few : values.length ≤ 4300) : Spells text (Nat.ofDigits 10 values.reverse : ℕ)
  | plus {text : List Char} {values : List Nat} (digits : Digits text values)
      (few : values.length ≤ 4300) : Spells ('+' :: text) (Nat.ofDigits 10 values.reverse : ℕ)
  | minus {text : List Char} {values : List Nat} (digits : Digits text values)
      (few : values.length ≤ 4300) : Spells ('-' :: text) (-(Nat.ofDigits 10 values.reverse : ℕ))

/-- What may stand behind a digit. -/
def Behind (text : List Char) (values : List Nat) : Prop :=
  (text = [] ∧ values = []) ∨ Digits text values ∨
    ∃ rest, text = '_' :: rest ∧ Digits rest values

theorem digits_cons_iff : Digits (c :: text) values ↔
    ∃ d rest, Text.digitValue? c = some d ∧ values = d :: rest ∧ Behind text rest := by
  constructor
  · intro h
    cases h with
    | last digit => exact ⟨_, [], digit, rfl, .inl ⟨rfl, rfl⟩⟩
    | more digit further => exact ⟨_, _, digit, rfl, .inr (.inl further)⟩
    | parted digit further => exact ⟨_, _, digit, rfl, .inr (.inr ⟨_, rfl, further⟩)⟩
  · rintro ⟨d, rest, digit, rfl, ⟨rfl, rfl⟩ | further | ⟨text, rfl, further⟩⟩
    · exact .last digit
    · exact .more digit further
    · exact .parted digit further

theorem not_digits_of_none (h : Text.digitValue? c = none) : ¬ Digits (c :: text) values := by
  intro digits
  obtain ⟨d, -, digit, -⟩ := digits_cons_iff.mp digits
  rw [h] at digit
  cases digit

theorem behind_of_none (h : Text.digitValue? c = none) :
    Behind (c :: text) values ↔ c = '_' ∧ Digits text values := by
  constructor
  · rintro (⟨⟨⟩, -⟩ | digits | ⟨rest, hrest, digits⟩)
    · exact (not_digits_of_none h digits).elim
    · cases hrest
      exact ⟨rfl, digits⟩
  · rintro ⟨rfl, digits⟩
    exact .inr (.inr ⟨text, rfl, digits⟩)

theorem behind_of_some {d : Nat} (h : Text.digitValue? c = some d) :
    Behind (c :: text) values ↔ Digits (c :: text) values := by
  constructor
  · rintro (⟨⟨⟩, -⟩ | digits | ⟨rest, hrest, -⟩)
    · exact digits
    · cases hrest
      cases h
  · exact fun digits => .inr (.inl digits)

/-- The reader accepts digits, and behind a digit it accepts what may stand there. -/
theorem digits?_spec (text : List Char) (values : List Nat) :
    (digits? false text = some values ↔ Digits text values) ∧
    (digits? true text = some values ↔ Behind text values) := by
  -- both at once, since the reader goes back and forth between the two
  induction text generalizing values with
  | nil =>
      refine ⟨⟨nofun, nofun⟩, ?_, ?_⟩
      · intro h
        cases h
        exact .inl ⟨rfl, rfl⟩
      · rintro (⟨-, rfl⟩ | digits | ⟨rest, hrest, -⟩)
        · rfl
        · cases digits
        · cases hrest
  | cons c text ih =>
      cases hdigit : Text.digitValue? c with
      | none =>
          rw [behind_of_none hdigit, digits?, digits?, hdigit]
          refine ⟨⟨nofun, fun digits => (not_digits_of_none hdigit digits).elim⟩, ?_⟩
          by_cases hc : c = '_'
          · simpa [hc] using (ih values).1
          · simp [hc]
      | some d =>
          have hcons : (digits? true text).map (d :: ·) = some values ↔
              Digits (c :: text) values := by
            rw [digits_cons_iff, Option.map_eq_some_iff]
            constructor
            · rintro ⟨rest, hrest, rfl⟩
              exact ⟨d, rest, hdigit, rfl, (ih rest).2.mp hrest⟩
            · rintro ⟨e, rest, he, rfl, behind⟩
              rw [hdigit] at he
              cases he
              exact ⟨rest, (ih rest).2.mpr behind, rfl⟩
          rw [behind_of_some hdigit, digits?, digits?, hdigit]
          exact ⟨hcons, hcons⟩

theorem ofDigits_eq (values : List Nat) : ofDigits values = Nat.ofDigits 10 values.reverse := by
  rw [Nat.ofDigits_eq_foldr, List.foldr_reverse, ofDigits]
  simp only [Nat.cast_id, Nat.add_comm]

theorem natural?_eq_some_iff {k : Nat} : natural? text = some k ↔
    ∃ values, Digits text values ∧ values.length ≤ 4300 ∧ k = Nat.ofDigits 10 values.reverse := by
  constructor
  · intro h
    rw [natural?] at h
    split at h
    · rename_i values hvalues
      split at h
      · rename_i few
        cases h
        exact ⟨values, (digits?_spec text values).1.mp hvalues, few, ofDigits_eq values⟩
      · cases h
    · cases h
  · rintro ⟨values, digits, few, rfl⟩
    rw [natural?, (digits?_spec text values).1.mpr digits, ← ofDigits_eq]
    exact if_pos few

theorem integer?_minus (text : List Char) :
    integer? ('-' :: text) = (natural? text).map fun k : ℕ => -(k : ℤ) := by
  rw [integer?]
  cases natural? text <;> rfl

/-- A literal is read as the integer that it spells, and nothing else is read. -/
theorem integer?_eq_some_iff : integer? text = some n ↔ Spells text n := by
  constructor
  · intro h
    unfold integer? at h
    split at h
    · rename_i text
      change integer? ('-' :: text) = some n at h
      rw [integer?_minus] at h
      obtain ⟨k, hk, rfl⟩ := Option.map_eq_some_iff.mp h
      obtain ⟨values, digits, few, rfl⟩ := natural?_eq_some_iff.mp hk
      exact .minus digits few
    · obtain ⟨k, hk, rfl⟩ := Option.map_eq_some_iff.mp h
      obtain ⟨values, digits, few, rfl⟩ := natural?_eq_some_iff.mp hk
      exact .plus digits few
    · obtain ⟨k, hk, rfl⟩ := Option.map_eq_some_iff.mp h
      obtain ⟨values, digits, few, rfl⟩ := natural?_eq_some_iff.mp hk
      exact .unsigned digits few
  · intro h
    cases h with
    | @unsigned _ values digits few =>
        have hread := natural?_eq_some_iff.mpr ⟨values, digits, few, rfl⟩
        unfold integer?
        split
        · exact (not_digits_of_none rfl digits).elim
        · exact (not_digits_of_none rfl digits).elim
        · rw [hread]
          rfl
    | @plus text values digits few =>
        have hread := natural?_eq_some_iff.mpr ⟨values, digits, few, rfl⟩
        rw [integer?, hread]
        rfl
    | @minus text values digits few =>
        have hread := natural?_eq_some_iff.mpr ⟨values, digits, few, rfl⟩
        rw [integer?_minus, hread]
        rfl

theorem Digits.not_blank (digits : Digits text values) : ∀ c ∈ text, Text.isBlank c = false := by
  induction digits with
  | last digit => simpa using Text.isBlank_of_digit digit
  | more digit _ ih => simpa using ⟨Text.isBlank_of_digit digit, ih⟩
  | parted digit _ ih =>
      have underscore : Text.isBlank '_' = false := by decide
      simpa using ⟨Text.isBlank_of_digit digit, underscore, ih⟩

theorem Digits.ne_nil (digits : Digits text values) : text ≠ [] := by
  rintro rfl
  cases digits

theorem Spells.not_blank (spells : Spells text n) : ∀ c ∈ text, Text.isBlank c = false := by
  cases spells with
  | unsigned digits few => exact digits.not_blank
  | plus digits few => simpa using ⟨(by decide : Text.isBlank '+' = false), digits.not_blank⟩
  | minus digits few => simpa using ⟨(by decide : Text.isBlank '-' = false), digits.not_blank⟩

theorem Spells.ne_nil (spells : Spells text n) : text ≠ [] := by
  cases spells with
  | unsigned digits few => exact digits.ne_nil
  | plus digits few => exact List.cons_ne_nil _ _
  | minus digits few => exact List.cons_ne_nil _ _

theorem Digits.lt_ten (digits : Digits text values) : ∀ d ∈ values, d < 10 := by
  induction digits with
  | last digit => simpa using Text.digitValue?_lt digit
  | more digit _ ih => simpa using ⟨Text.digitValue?_lt digit, ih⟩
  | parted digit _ ih => simpa using ⟨Text.digitValue?_lt digit, ih⟩

theorem Digits.ofDigits_lt {count : Nat} (digits : Digits text values)
    (few : values.length ≤ count) : Nat.ofDigits 10 values.reverse < Nat.pow 10 count := by
  have hlt := Nat.ofDigits_lt_base_pow_length (l := values.reverse) (by decide : 1 < 10)
    fun d hd => digits.lt_ten d (List.mem_reverse.mp hd)
  rw [List.length_reverse] at hlt
  exact Nat.lt_of_lt_of_le hlt (Nat.pow_le_pow_right (by decide) few)

/-- A number that can be read can be written. -/
theorem Spells.isWritable (spells : Spells text n) : Decimal.isWritable n = true := by
  rw [Decimal.isWritable_iff]
  cases spells with
  | unsigned digits few =>
      rw [Int.natAbs_natCast]
      exact digits.ofDigits_lt few
  | plus digits few =>
      rw [Int.natAbs_natCast]
      exact digits.ofDigits_lt few
  | minus digits few =>
      rw [Int.natAbs_neg, Int.natAbs_natCast]
      exact digits.ofDigits_lt few

theorem digits_of_isDigit (hne : text ≠ []) (ascii : ∀ c ∈ text, c.isDigit = true) :
    Digits text (text.map fun c => c.toNat - 48) := by
  induction text with
  | nil => exact (hne rfl).elim
  | cons c text ih =>
      have digit := Text.digitValue?_of_isDigit (ascii c List.mem_cons_self)
      cases text with
      | nil => exact .last digit
      | cons c' text =>
          exact .more digit (ih (List.cons_ne_nil c' text) fun d hd =>
            ascii d (List.mem_cons_of_mem c hd))

/-- ASCII digits spell the number that they make up. -/
theorem spells_of_isDigit (hne : text ≠ []) (ascii : ∀ c ∈ text, c.isDigit = true)
    (few : text.length ≤ 4300) : Spells text (Nat.ofDigitChars 10 text 0) := by
  have spells := Spells.unsigned (digits_of_isDigit hne ascii) (by rwa [List.length_map])
  have hvalue : ofDigits (text.map fun c => c.toNat - 48) = Nat.ofDigitChars 10 text 0 := by
    rw [ofDigits, List.foldl_map, Nat.ofDigitChars_eq_foldl]
    rfl
  rwa [← ofDigits_eq, hvalue] at spells

theorem toList_toString (k : Nat) : (toString k).toList = Nat.toDigits 10 k := by
  rw [Nat.toString_eq_repr, Nat.toList_repr]

end Literal

namespace StepSize

variable {s : String} {n : Int}

/-- A text that spells an integer, perhaps with blanks around it. -/
def Spelled (s : String) (n : Int) : Prop :=
  ∃ before core after, s.toList = before ++ core ++ after ∧
    (∀ c ∈ before, Text.isBlank c = true) ∧ (∀ c ∈ after, Text.isBlank c = true) ∧
    Literal.Spells core n

theorem integer?_eq_some_iff : integer? s = some n ↔ Spelled s n := by
  rw [integer?, Literal.integer?_eq_some_iff]
  constructor
  · intro spells
    obtain ⟨before, after, htext, hbefore, hafter⟩ := Text.exists_trim Text.isBlank s.toList
    exact ⟨before, _, after, htext, hbefore, hafter, spells⟩
  · rintro ⟨before, core, after, htext, hbefore, hafter, spells⟩
    rwa [htext, Text.trim_append spells.ne_nil spells.not_blank hbefore hafter]

theorem integer?_eq_none_iff : integer? s = none ↔ ∀ n, ¬ Spelled s n := by
  simp only [Option.eq_none_iff_forall_ne_some, ne_eq, integer?_eq_some_iff]

theorem check_of_spelled (spelled : Spelled s n) : check (.text s) = ofInt n := by
  rw [check, integer?_eq_some_iff.mpr spelled]

theorem check_of_not_spelled (h : ∀ n, ¬ Spelled s n) :
    check (.text s) = .error (.notANumber (.text s)) := by
  rw [check, integer?_eq_none_iff.mpr h]

theorem ofInt_of_outside (h : ¬ (1 ≤ n ∧ n ≤ largest)) : ofInt n = .error (.outOfRange n) :=
  if_neg h

/-- A number out of range is shown if it has been read from a text. -/
theorem Spelled.message_outOfRange (spelled : Spelled s n) :
    (Invalid.outOfRange n).message = "Invalid memory step size '" ++ toString n ++ "'" := by
  obtain ⟨_, core, _, -, -, -, spells⟩ := spelled
  rw [Invalid.message, Invalid.message?, Decimal.text?_eq_some spells.isWritable]
  rfl

theorem spelled_of_spells (spells : Literal.Spells s.toList n) : Spelled s n :=
  ⟨[], s.toList, [], by simp, nofun, nofun, spells⟩

/-- A step size in ASCII digits. -/
structure Numeral where
  text : String
  ascii : text.toList.all Char.isDigit = true
  few : text.toList.length ≤ 4300
  one_le : 1 ≤ Nat.ofDigitChars 10 text.toList 0
  le_largest : Nat.ofDigitChars 10 text.toList 0 ≤ largest

namespace Numeral

def cells (n : Numeral) : Nat := Nat.ofDigitChars 10 n.text.toList 0

theorem toList_ne_nil (n : Numeral) : n.text.toList ≠ [] := by
  intro h
  have one_le := n.one_le
  rw [h] at one_le
  exact absurd one_le (by decide)

theorem isDigit_of_mem (n : Numeral) {c : Char} (h : c ∈ n.text.toList) : c.isDigit = true :=
  List.all_eq_true.mp n.ascii c h

theorem check_text (n : Numeral) : check (.text n.text) = .ok n.cells := by
  have spells := Literal.spells_of_isDigit n.toList_ne_nil (fun _ => n.isDigit_of_mem) n.few
  rw [check_of_spelled (spelled_of_spells spells)]
  exact ofInt_eq_ok_iff.mpr ⟨rfl, n.one_le, n.le_largest⟩

/-- The digits of a number in range, without leading zeros. -/
def ofNat (k : Nat) (one_le : 1 ≤ k) (le : k ≤ largest) : Numeral where
  text := toString k
  ascii := by
    apply List.all_eq_true.mpr
    intro c hc
    rw [Literal.toList_toString] at hc
    exact Nat.isDigit_of_mem_toDigits (by decide) (by decide) hc
  few := by
    have short : (Nat.toDigits 10 k).length ≤ 10 :=
      Nat.toDigits_length 10 k 10 (by decide) (Nat.lt_of_le_of_lt le (by decide))
    rw [Literal.toList_toString]
    exact Nat.le_trans short (by decide)
  one_le := by rwa [Literal.toList_toString, Nat.ofDigitChars_ten_toDigits]
  le_largest := by rwa [Literal.toList_toString, Nat.ofDigitChars_ten_toDigits]

@[simp] theorem cells_ofNat {k : Nat} (one_le : 1 ≤ k) (le : k ≤ largest) :
    (ofNat k one_le le).cells = k := by
  change Nat.ofDigitChars 10 (toString k).toList 0 = k
  rw [Literal.toList_toString, Nat.ofDigitChars_ten_toDigits]

def standard : Numeral := ofNat StepSize.standard (by decide) (by decide)

end Numeral

/-- A step size given as a text is accepted exactly if the text spells an integer in range, which
is then the step size. A text that spells no integer is shown in the message as it was given; a
text that spells one out of range is not, but the integer is. An integer in range is accepted as it
is; every other integer, and every value that is neither integer nor text, is refused. So a step
size is read back from its decimal digits, and checking it once more changes nothing. -/
theorem check_reads_its_grammar :
    (∀ s k, check (.text s) = .ok k ↔ Spelled s k ∧ 1 ≤ k ∧ k ≤ largest) ∧
    (∀ s, (∀ n, ¬ Spelled s n) → ∃ cause, check (.text s) = .error cause ∧
      cause.message = "Invalid memory step size '" ++ s ++ "'") ∧
    (∀ s n, Spelled s n → ¬ (1 ≤ n ∧ n ≤ largest) → ∃ cause, check (.text s) = .error cause ∧
      cause.message = "Invalid memory step size '" ++ toString n ++ "'") ∧
    (∀ (n : Int) k, check (.int n) = .ok k ↔ n = k ∧ 1 ≤ k ∧ k ≤ largest) ∧
    (∀ v, (∀ s, v ≠ .text s) → (∀ n, v ≠ .int n) → ∃ cause, check v = .error cause) ∧
    (∀ k, 1 ≤ k → k ≤ largest → check (.text (toString k)) = .ok k) ∧
    ∀ v k, check v = .ok k → check (.int k) = .ok k := by
  refine ⟨?_, ?_, ?_, fun n k => ofInt_eq_ok_iff, ?_, ?_, fun v k => ofInt_of_check⟩
  · intro s k
    by_cases h : ∃ n, Spelled s n
    · obtain ⟨n, spelled⟩ := h
      rw [check_of_spelled spelled, ofInt_eq_ok_iff]
      refine and_congr_left fun _ => ⟨fun hn => hn ▸ spelled, fun spelled' => ?_⟩
      have hread := integer?_eq_some_iff.mpr spelled
      rw [integer?_eq_some_iff.mpr spelled'] at hread
      exact (Option.some.inj hread).symm
    · have hnone : ∀ n, ¬ Spelled s n := not_exists.mp h
      rw [check_of_not_spelled hnone]
      exact ⟨nofun, fun accepted => (hnone k accepted.1).elim⟩
  · intro s hnone
    exact ⟨_, check_of_not_spelled hnone, rfl⟩
  · intro s n spelled outside
    exact ⟨_, (check_of_spelled spelled).trans (ofInt_of_outside outside),
      spelled.message_outOfRange⟩
  · intro v htext hint
    cases v with
    | text s => exact (htext s rfl).elim
    | int n => exact (hint n rfl).elim
    | _ => exact ⟨_, rfl⟩
  · intro k one_le le
    have accepted := (Numeral.ofNat k one_le le).check_text
    rwa [Numeral.cells_ofNat] at accepted

/-- A text with a separator and a tab around it, a sign, an Arabic digit and an underscore spells
42. Two underscores in a row spell nothing, and 2 ^ 32 is out of range. -/
theorem check_reads_arabic_digits :
    Spelled "\u001c+\u0664_2\t" 42 ∧ check (.text "\u001c+\u0664_2\t") = .ok 42 ∧
    check (.int 42) = .ok 42 ∧ check (.text "42") = .ok 42 ∧
    (∀ n, ¬ Spelled "4__2" n) ∧ (∃ cause, check (.text "4__2") = .error cause ∧
      cause.message = "Invalid memory step size '4__2'") ∧
    Spelled " 4_294967296" 4294967296 ∧ (∃ cause, check (.text " 4_294967296") = .error cause ∧
      cause.message = "Invalid memory step size '4294967296'") ∧
    ∃ cause, check (.bool true) = .error cause := by
  obtain ⟨accepts, quotes, counts, -, refuses, printed, again⟩ := check_reads_its_grammar
  have arabic : Spelled "\u001c+\u0664_2\t" 42 := integer?_eq_some_iff.mp (by decide +kernel)
  have twice : ∀ n, ¬ Spelled "4__2" n := integer?_eq_none_iff.mp (by decide +kernel)
  have large : Spelled " 4_294967296" 4294967296 := integer?_eq_some_iff.mp (by decide +kernel)
  have accepted := (accepts _ 42).mpr ⟨arabic, by decide, by decide⟩
  exact ⟨arabic, accepted, again _ 42 accepted, printed 42 (by decide) (by decide),
    twice, quotes _ twice, large, counts _ _ large (by decide), refuses (.bool true) nofun nofun⟩

end StepSize

end NibTape

import NibTape.CommandLine.Invocation

/-!
# What lower case keeps

Lower case changes letters into letters. Whatever it puts into a text has a code point from the
small letter a on, so every other character of the result was there before: a dash, an equals
sign or a control character is neither made nor moved.

The form of a letter depends on what stands around it, but not across an equals sign, which is
no part of a word. So the two sides of an equals sign can be put in lower case apart.
-/

namespace NibTape.Text

variable {c d : Char} {before far text rest side : List Char}

/-- Everything that a run of letters is turned into is a character from the small letter a on. -/
theorem caseRuns_bounds : ∀ r ∈ caseRuns, 0x61 ≤ (r.first + r.distance) ∧
    ((r.last + r.distance) < 0xD800 ∨
      0xDFFF < (r.first + r.distance) ∧ (r.last + r.distance) < 0x110000) := by
  decide +kernel

theorem lowerChar_cases (c : Char) : lowerChar c = c ∨ 0x61 ≤ (lowerChar c).toNat := by
  unfold lowerChar
  split
  · rename_i r hfind
    right
    have hrun := List.find?_some hfind
    obtain ⟨hlow, hvalid⟩ := caseRuns_bounds r (List.mem_of_find?_eq_some hfind)
    simp only [CaseRun.has, Bool.and_eq_true, decide_eq_true_eq] at hrun
    have hchar : ((c.toNat : Int) + r.distance).toNat.isValidChar := by
      unfold Nat.isValidChar
      omega
    rw [Char.ofNat, dif_pos hchar]
    change 0x61 ≤ ((c.toNat : Int) + r.distance).toNat
    omega
  · exact .inl rfl

/-- Lower case takes a text character by character: it keeps the character, or puts letters in
its place. -/
theorem lowerAfter_cons (before : List Char) (c : Char) (rest : List Char) :
    ∃ form, lowerAfter before (c :: rest) = form ++ lowerAfter (c :: before) rest ∧
      (form = [c] ∨ form ≠ [] ∧ ∀ d ∈ form, 0x61 ≤ d.toNat) := by
  refine ⟨_, by rw [lowerAfter], ?_⟩
  split
  · right
    split <;> exact ⟨by simp, by simp⟩
  · split
    · exact .inr ⟨by simp, by simp⟩
    · obtain hsame | hlarge := lowerChar_cases c
      · exact .inl (by rw [hsame])
      · exact .inr ⟨by simp, by simpa using hlarge⟩

/-- A text whose lower-case form has no letters is that form. -/
theorem lowerAfter_eq_self (h : ∀ d ∈ lowerAfter before text, d.toNat < 0x61) :
    lowerAfter before text = text := by
  induction text generalizing before with
  | nil => rfl
  | cons c text ih =>
      obtain ⟨form, hform, rfl | ⟨hne, hletters⟩⟩ := lowerAfter_cons before c text
      · rw [hform] at h ⊢
        rw [ih fun d hd => h d (List.mem_append_right _ hd), List.singleton_append]
      · obtain ⟨d, hd⟩ := List.exists_mem_of_ne_nil form hne
        have hsmall := h d (hform ▸ List.mem_append_left _ hd)
        exact absurd (hletters d hd) (Nat.not_le_of_lt hsmall)

/-- A text in lower case begins with a dash only if the text did. -/
theorem head?_lower (h : (lower text).head? = some '-') : text.head? = some '-' := by
  cases text with
  | nil => cases h
  | cons c text =>
      obtain ⟨form, hform, rfl | ⟨hne, hletters⟩⟩ := lowerAfter_cons [] c text
      · simpa [lower, hform] using h
      · obtain ⟨d, rest, rfl⟩ := List.exists_cons_of_ne_nil hne
        have hdash : d = '-' := by simpa [lower, hform] using h
        exact absurd (hletters d List.mem_cons_self) (by rw [hdash]; decide)

theorem touchesWord_append_equals (side far : List Char) :
    touchesWord (side ++ '=' :: far) = touchesWord side := by
  have hignorable : caseIgnorable.has '='.toNat = false := by decide +kernel
  have hcased : cased.has '='.toNat = false := by decide +kernel
  induction side with
  | nil =>
      rw [List.nil_append, touchesWord, List.dropWhile_cons_of_neg (by rw [hignorable]; decide)]
      exact hcased
  | cons c side ih =>
      cases hc : caseIgnorable.has c.toNat with
      | true => simpa [touchesWord, hc] using ih
      | false => simp [touchesWord, hc]

/-- What stands beyond an equals sign in front of a text does not matter to it. -/
theorem lowerAfter_append_equals (before far text : List Char) :
    lowerAfter (before ++ '=' :: far) text = lowerAfter before text := by
  induction text generalizing before with
  | nil => rfl
  | cons c text ih =>
      rw [lowerAfter, lowerAfter, touchesWord_append_equals, ← List.cons_append, ih]

/-- The two sides of an equals sign have their lower-case forms apart. -/
theorem lowerAfter_assigned (before name value : List Char) :
    lowerAfter before (name ++ '=' :: value) = lowerAfter before name ++ '=' :: lower value := by
  have hequals : lowerChar '=' = '=' := by decide +kernel
  induction name generalizing before with
  | nil =>
      have hvalue : lowerAfter ('=' :: before) value = lower value :=
        lowerAfter_append_equals [] before value
      simp [lowerAfter, hequals, hvalue]
  | cons c name ih =>
      rw [List.cons_append, lowerAfter, lowerAfter, ih, touchesWord_append_equals,
        List.append_assoc]

/-! ### ASCII -/

/-- Of the runs of letters, only the first reaches into ASCII. -/
theorem caseRuns_tail : ∀ r ∈ caseRuns.tail, 128 ≤ r.first := by
  decide +kernel

theorem lowerChar_of_ascii (h : c.toNat < 128) : lowerChar c = c.toLower := by
  have hruns : caseRuns = ⟨0x41, 0x5A, 1, 32⟩ :: caseRuns.tail := rfl
  have hrest : caseRuns.tail.find? (fun r => r.has c.toNat) = none := by
    apply List.find?_eq_none.mpr
    intro r hr hhas
    have hfirst := caseRuns_tail r hr
    simp only [CaseRun.has, Bool.and_eq_true, decide_eq_true_eq] at hhas
    omega
  have all : ∀ n < 128,
      (if CaseRun.has ⟨0x41, 0x5A, 1, 32⟩ n then Char.ofNat (n + 32) else Char.ofNat n) =
        (Char.ofNat n).toLower := by
    decide +kernel
  have hlower := all c.toNat h
  rw [Char.ofNat_toNat] at hlower
  rw [lowerChar, hruns, List.find?_cons, hrest, ← hlower]
  cases CaseRun.has ⟨0x41, 0x5A, 1, 32⟩ c.toNat <;> rfl

theorem ascii_of_toLower (h : c.toLower.toNat < 128) : c.toNat < 128 := by
  delta Char.toLower at h
  split at h
  · rename_i upper
    exact Nat.lt_of_le_of_lt (UInt32.le_iff_toNat_le.mp upper.2) (by decide)
  · exact h

/-- In a text of ASCII characters, no character has more than one form. -/
theorem lowerAfter_of_ascii (before : List Char) (h : ∀ c ∈ text, c.toNat < 128) :
    lowerAfter before text = text.map Char.toLower := by
  induction text generalizing before with
  | nil => rfl
  | cons c text ih =>
      have hc := h c List.mem_cons_self
      have sigma : c ≠ '\u03a3' := by
        rintro rfl
        exact absurd hc (by decide)
      have dotted : c ≠ '\u0130' := by
        rintro rfl
        exact absurd hc (by decide)
      rw [lowerAfter, if_neg sigma, if_neg dotted, lowerChar_of_ascii hc,
        ih _ fun d hd => h d (List.mem_cons_of_mem c hd)]
      rfl

theorem lower_of_ascii (h : ∀ c ∈ text, c.toNat < 128) : lower text = text.map Char.toLower :=
  lowerAfter_of_ascii [] h

end NibTape.Text

namespace NibTape.Invocation

theorem foldCase_of_dashed {word : String} (h : word.toList.head? = some '-') :
    foldCase word = String.ofList (Text.lower word.toList) := by
  obtain ⟨rest, hrest⟩ := List.head?_eq_some_iff.mp h
  simp only [foldCase, hrest]

theorem foldCase_of_not_dashed {word : String} (h : word.toList.head? ≠ some '-') :
    foldCase word = word := by
  unfold foldCase
  split
  · rename_i rest hrest
    rw [hrest] at h
    exact (h rfl).elim
  · rfl

/-- A word becomes the separator only if it is the separator. -/
theorem foldCase_eq_separator {word : String} (h : foldCase word = "--") : word = "--" := by
  by_cases hdash : word.toList.head? = some '-'
  · have hlower : Text.lower word.toList = ['-', '-'] := by
      rw [← String.toList_ofList (l := Text.lower word.toList), ← foldCase_of_dashed hdash, h]
      rfl
    have hself : Text.lower word.toList = word.toList := by
      apply Text.lowerAfter_eq_self
      change ∀ d ∈ Text.lower word.toList, d.toNat < 0x61
      rw [hlower]
      simp
    exact String.toList_inj.mp (hself.symm.trans hlower)
  · rwa [foldCase_of_not_dashed hdash] at h

theorem head?_of_foldCase {word : String} (h : (foldCase word).toList.head? = some '-') :
    word.toList.head? = some '-' := by
  by_cases hdash : word.toList.head? = some '-'
  · exact hdash
  · rwa [foldCase_of_not_dashed hdash] at h

theorem foldCase_eq (word : String) : foldCase word =
    if word.toList.head? = some '-' then String.ofList (Text.lower word.toList) else word := by
  by_cases h : word.toList.head? = some '-'
  · rw [if_pos h, foldCase_of_dashed h]
  · rw [if_neg h, foldCase_of_not_dashed h]

/-- A word of ASCII characters that begins with a dash has its capitals put in lower case. -/
theorem toList_foldCase_of_ascii {word : String} (hdash : word.toList.head? = some '-')
    (h : ∀ c ∈ word.toList, c.toNat < 128) :
    (foldCase word).toList = word.toList.map Char.toLower := by
  rw [foldCase_of_dashed hdash, String.toList_ofList, Text.lower_of_ascii h]

/-- Folding a spelling with a value behind an equals sign folds both. -/
theorem foldCase_assigned {name : String} (hname : name.toList.head? = some '-')
    (value : String) : foldCase (name ++ "=" ++ value) =
      foldCase name ++ "=" ++ String.ofList (Text.lower value.toList) := by
  have hchars : (name ++ "=" ++ value).toList = name.toList ++ '=' :: value.toList := by simp
  have hdashed : (name ++ "=" ++ value).toList.head? = some '-' := by
    rw [hchars, List.head?_append, hname]
    rfl
  have hlower : Text.lower (name.toList ++ '=' :: value.toList) =
      Text.lower name.toList ++ '=' :: Text.lower value.toList :=
    Text.lowerAfter_assigned [] name.toList value.toList
  rw [foldCase_of_dashed hdashed, foldCase_of_dashed hname, hchars, hlower]
  apply String.toList_inj.mp
  simp

end NibTape.Invocation

import Mathlib.Data.List.Induction
import NibTape.Proofs.Folding
import NibTape.Proofs.Numeral
import NibTape.Proofs.Setup

/-!
# Switches in any order

A switch is written in one of several ways: alone, with its value in the next word, or with the
value behind an equals sign or right behind the letter. Whichever is chosen, the words of the
switch are classed without regard to what stands around them, and when they are used they add
one entry to what was taken and touch nothing else. So stretches of such words compose, a path
may stand between any two of them, and what is read depends on the entries alone.

Of the entries, the last of each kind counts. Hence the order of switches matters only between
two that set the same thing.
-/

namespace NibTape

namespace CommandLine

variable {κ : Type} {g : Grammar κ} {switch : Switch κ} {spelling word : List Char}
variable {value : String}

namespace Reading

def record (r : Reading κ) (entries : List (κ × Given)) : Reading κ :=
  { r with taken := r.taken ++ entries }

theorem record_nil (r : Reading κ) : r.record [] = r := by
  simp [record]

theorem record_append (r : Reading κ) (entries more : List (κ × Given)) :
    r.record (entries ++ more) = (r.record entries).record more := by
  simp [record]

theorem take_bare (goesOn : switch.stops = false) (r : Reading κ) :
    r.take switch .bare = .ok (r.record [(switch.key, .bare)]) := by
  simp [take, goesOn, record]

theorem take_value (goesOn : switch.stops = false)
    (accepts : switch.complaint value = none) (r : Reading κ) :
    r.take switch (.value value) = .ok (r.record [(switch.key, .value value)]) := by
  simp [take, goesOn, accepts, record]

variable [DecidableEq κ] {key : κ}

theorem given?_record (r : Reading κ) (last : κ × Given) :
    (r.record [last]).given? key = if last.1 = key then some last.2 else r.given? key := by
  by_cases h : last.1 = key <;> simp [given?, record, h]

theorem met_iff {r : Reading κ} : r.met key = true ↔ ∃ entry ∈ r.taken, entry.1 = key := by
  simp [met, given?]

end Reading

/-- A short spelling with its value right behind it. -/
theorem classWord_joined {c : Char} {value : List Char}
    (known : g.lookup? ['-', c] = some switch) (letter : c ≠ '-')
    (hequals : '=' ∉ '-' :: c :: value) (new : g.lookup? ('-' :: c :: value) = none) :
    classWord g ('-' :: c :: value) = .ok (.known switch ['-', c] (some value)) := by
  have whole : spelledOut? g ('-' :: c :: value) = none := by
    have hdrop : ('-' :: c :: value).dropWhile (· != '=') = [] := by
      apply List.dropWhile_eq_nil_iff.mpr
      intro d hd
      simpa using fun heq : d = '=' => hequals (heq ▸ hd)
    rw [spelledOut?, splitEquals?, hdrop]
  have halves : partialReadings g ('-' :: c :: value) = [(['-', c], switch, some value)] := by
    unfold partialReadings
    split
    · rename_i heq
      cases heq
      exact (letter rfl).elim
    · rename_i heq
      cases heq
      rw [known]
    · rename_i hshort
      exact (hshort c value rfl).elim
  simp [classWord, new, classDashed, whole, halves]

theorem consume_bare (alone : switch.takesValue = false) (goesOn : switch.stops = false)
    (r : Reading κ) (rest : List (Token κ)) :
    consume g r (.known switch spelling none :: rest) =
      consume g (r.record [(switch.key, .bare)]) rest := by
  have htake : r.takeChain ⟨[], switch, none⟩ .bare = .ok (r.record [(switch.key, .bare)]) :=
    Reading.take_bare goesOn r
  rw [consume]
  simp only [chainOf, alone, Bool.false_eq_true, if_false, htake]

theorem consume_apart (takes : switch.takesValue = true) (goesOn : switch.stops = false)
    (accepts : switch.complaint value = none) (kept : value.toList ≠ ['-', '-'])
    (r : Reading κ) (rest : List (Token κ)) :
    consume g r (.known switch spelling none :: .plain value.toList :: rest) =
      consume g (r.record [(switch.key, .value value)]) rest := by
  have htake : r.takeChain ⟨[], switch, none⟩ (.ofWord value.toList) =
      .ok (r.record [(switch.key, .value value)]) := by
    rw [Given.ofWord, if_neg kept, String.ofList_toList]
    exact Reading.take_value goesOn accepts r
  rw [consume]
  simp only [chainOf, takes, if_true, htake]

/-! ### Stretches of a line -/

/-- Words in front of the separator that have some entries recorded and do nothing else. -/
def Records (g : Grammar κ) (words : List (List Char)) (entries : List (κ × Given)) : Prop :=
  ∃ classed : List (Token κ),
    (∀ rest, tokens g (words ++ rest) = (tokens g rest).map (classed ++ ·)) ∧
    (∀ tail, classed ≠ .separator :: tail) ∧
    ∀ r rest, consume g r (classed ++ rest) = consume g (r.record entries) rest

namespace Records

variable {words more : List (List Char)} {entries further : List (κ × Given)}

theorem nil (g : Grammar κ) : Records g [] [] := by
  refine ⟨[], ?_, nofun, ?_⟩
  · intro rest
    cases h : tokens g rest <;> simp [h, Except.map]
  · intro r rest
    rw [Reading.record_nil]
    rfl

theorem append (h : Records g words entries) (h' : Records g more further) :
    Records g (words ++ more) (entries ++ further) := by
  obtain ⟨classed, classes, starts, takes⟩ := h
  obtain ⟨classed', classes', starts', takes'⟩ := h'
  refine ⟨classed ++ classed', ?_, ?_, ?_⟩
  · intro rest
    rw [List.append_assoc, classes, classes']
    cases tokens g rest <;> simp [Except.map]
  -- the first token is one of the front stretch, or that stretch is empty
  · intro tail
    cases classed with
    | nil => exact starts' tail
    | cons token classed =>
        intro h
        exact starts classed (by rw [(List.cons.inj h).1])
  · intro r rest
    rw [List.append_assoc, takes, takes', Reading.record_append]

/-- A word that is classed as a switch standing alone. -/
theorem alone (hword : classWord g word = .ok (.known switch word none))
    (kept : word ≠ ['-', '-']) (alone : switch.takesValue = false)
    (goesOn : switch.stops = false) : Records g [word] [(switch.key, .bare)] := by
  refine ⟨[.known switch word none], tokens_cons kept hword, nofun, ?_⟩
  exact fun r rest => consume_bare alone goesOn r rest

section Value

variable (takes : switch.takesValue = true) (goesOn : switch.stops = false)
variable (accepts : switch.complaint value = none) (kept : value.toList ≠ ['-', '-'])
include takes goesOn accepts kept

/-- A word that is classed as a switch, and a plain word that is its value. -/
theorem apart (hword : classWord g word = .ok (.known switch word none))
    (hkept : word ≠ ['-', '-']) (hvalue : classWord g value.toList = .ok (.plain value.toList)) :
    Records g [word, value.toList] [(switch.key, .value value)] := by
  refine ⟨[.known switch word none, .plain value.toList], ?_, nofun, ?_⟩
  · intro rest
    change tokens g (word :: value.toList :: rest) = _
    rw [tokens_cons hkept hword, tokens_cons kept hvalue]
    cases tokens g rest <;> rfl
  · exact fun r rest => consume_apart takes goesOn accepts kept r rest

/-- A word that is classed as a switch with its value. -/
theorem attached
    (hword : classWord g word = .ok (.known switch spelling (some value.toList)))
    (hkept : word ≠ ['-', '-']) : Records g [word] [(switch.key, .value value)] := by
  refine ⟨[.known switch spelling (some value.toList)], tokens_cons hkept hword, nofun, ?_⟩
  intro r rest
  calc consume g r (.known switch spelling (some value.toList) :: rest)
      = consume g r (.known switch spelling none :: .plain value.toList :: rest) :=
        consume_attached takes spelling value.toList [] rest r
    _ = _ := consume_apart takes goesOn accepts kept r rest

end Value

end Records

/-- Between two stretches of switches, a plain word is the operand. -/
theorem read_around {name : String} (named : g.operand = some name) {front back : List String}
    {operand : String} {entries further : List (κ × Given)}
    (hfront : Records g (front.map String.toList) entries)
    (hback : Records g (back.map String.toList) further)
    (plain : operand.toList.head? ≠ some '-') :
    read g (front ++ operand :: back) =
      .ok { taken := entries ++ further, operand := some operand, extras := [] } := by
  obtain ⟨classed, classes, -, takes⟩ := hfront
  obtain ⟨classed', classes', starts', takes'⟩ := hback
  -- no separator stands behind the operand, so nothing is dropped with it
  have hline : tokens g ((front ++ operand :: back).map String.toList) =
      .ok (classed ++ .plain operand.toList :: classed') := by
    have hback := classes' []
    rw [List.append_nil, tokens_nil] at hback
    rw [List.map_append, List.map_cons, classes,
      tokens_cons (ne_separator_of_plain plain) (classWord_not_dashed plain), hback]
    simp [Except.map]
  have hconsume : consume g {} (classed ++ .plain operand.toList :: classed') =
      .ok { taken := entries ++ further, operand := some operand, extras := [] } := by
    have hend := takes' ((({} : Reading κ).record entries).setOperand operand.toList) []
    have wants : wantsOperand g (({} : Reading κ).record entries) = true := by
      simp [wantsOperand, named, Reading.record]
    rw [List.append_nil, consume_nil] at hend
    rw [takes, consume_plain starts', if_pos wants, hend]
    simp [Reading.record, Reading.setOperand]
  rw [read, hline]
  change consume g {} (classed ++ .plain operand.toList :: classed') >>= settle g = _
  rw [hconsume]
  simp [settle, named, bind, Except.bind]

end CommandLine

/-! ### The switches of the interpreter -/

namespace RunSwitch

open CommandLine

/-- A switch of the interpreter with the value that is given to it. -/
inductive Use where
  | memorySize (size : StepSize.Numeral)
  | safe
  | eof (rule : EndOfInput)
  | verbose

def letter : RunSwitch → String
  | memorySize => "-m"
  | safe => "-s"
  | eof => "-e"
  | verbose => "-v"

def longName : RunSwitch → String
  | memorySize => "--memory-size"
  | safe => "--safe"
  | eof => "--eof"
  | verbose => "--verbose"

/-- No spelling begins with one dash and goes on behind its letter. -/
theorem lookup?_joined {c : Char} {value : List Char} (letter : c ≠ '-') (hvalue : value ≠ []) :
    grammar.lookup? ('-' :: c :: value) = none := by
  have short : ∀ s ∈ grammar.switches, ∀ n ∈ s.names,
      n.toList[1]? = some '-' ∨ n.toList.length = 2 := by
    decide
  cases h : grammar.lookup? ('-' :: c :: value) with
  | none => rfl
  | some switch =>
      obtain ⟨listed, named⟩ := Grammar.lookup?_eq_some h
      obtain hsecond | hlength := short switch listed _ named
      · rw [String.toList_ofList] at hsecond
        exact (letter (Option.some.inj hsecond)).elim
      · rw [String.toList_ofList] at hlength
        exact (hvalue (List.eq_nil_of_length_eq_zero (by simpa using hlength))).elim

theorem exists_letter (key : RunSwitch) :
    ∃ c, (letter key).toList = ['-', c] ∧ c ≠ '-' ∧ c ≠ '=' := by
  cases key <;> exact ⟨_, rfl, by decide, by decide⟩

namespace Use

def key : Use → RunSwitch
  | memorySize _ => .memorySize
  | safe => .safe
  | eof _ => .eof
  | verbose => .verbose

def value? : Use → Option String
  | memorySize size => some size.text
  | eof rule => some rule.label
  | _ => none

def size? : Use → Option StepSize.Numeral
  | memorySize size => some size
  | _ => none

def rule? : Use → Option EndOfInput
  | eof rule => some rule
  | _ => none

def entry (u : Use) : RunSwitch × Given :=
  (u.key, match u.value? with
    | some value => .value value
    | none => .bare)

theorem entry_of_size? {u : Use} {size : StepSize.Numeral} (h : u.size? = some size) :
    u.entry = (.memorySize, .value size.text) := by
  cases u <;> cases h
  rfl

theorem key_of_size? {u : Use} (h : u.size? = none) : u.key ≠ .memorySize := by
  cases u with
  | memorySize size => cases h
  | _ => exact nofun

theorem entry_of_rule? {u : Use} {rule : EndOfInput} (h : u.rule? = some rule) :
    u.entry = (.eof, .value rule.label) := by
  cases u <;> cases h
  rfl

theorem key_of_rule? {u : Use} (h : u.rule? = none) : u.key ≠ .eof := by
  cases u with
  | eof rule => cases h
  | _ => exact nofun

/-- A word is a spelling, perhaps with capitals. -/
def Named (u : Use) (name word : String) : Prop :=
  (name = letter u.key ∨ name = longName u.key) ∧ word.toList.map Char.toLower = name.toList

/-- The words in which a switch may be written: the spelling alone, the value in the next word,
the value behind an equals sign, and the value right behind the letter. -/
inductive Written (u : Use) : List String → Prop where
  | alone {name word : String} (named : u.Named name word) (bare : u.value? = none) :
      Written u [word]
  | apart {name word value : String} (named : u.Named name word) (given : u.value? = some value) :
      Written u [word, value]
  | assigned {name word value : String} (named : u.Named name word)
      (given : u.value? = some value) : Written u [word ++ "=" ++ value]
  | joined {word value : String} (named : u.Named (letter u.key) word)
      (given : u.value? = some value) : Written u [word ++ value]

structure SwitchOf (u : Use) (switch : Switch RunSwitch) : Prop where
  listed : switch ∈ grammar.switches
  key : switch.key = u.key
  names : switch.names = [letter u.key, longName u.key]
  takesValue : switch.takesValue = u.value?.isSome
  goesOn : switch.stops = false
  accepts : ∀ value, u.value? = some value → switch.complaint value = none

theorem exists_switchOf (u : Use) : ∃ switch, u.SwitchOf switch := by
  have labels : ∀ rule : EndOfInput,
      choiceComplaint (EndOfInput.all.map EndOfInput.label) rule.label = none := by
    intro rule
    cases rule <;> decide
  cases u with
  | memorySize size => exact ⟨_, .head _, rfl, rfl, rfl, rfl, fun _ _ => rfl⟩
  | safe => exact ⟨_, .tail _ (.head _), rfl, rfl, rfl, rfl, nofun⟩
  | eof rule =>
      refine ⟨_, .tail _ (.tail _ (.head _)), rfl, rfl, rfl, rfl, ?_⟩
      rintro value ⟨⟩
      exact labels rule
  | verbose => exact ⟨_, .tail _ (.tail _ (.tail _ (.head _))), rfl, rfl, rfl, rfl, nofun⟩

/-- A character with no other case and with no meaning of its own on a line. -/
structure ValueChar (c : Char) : Prop where
  ascii : c.toNat < 128
  lower : c.toLower = c
  ne_dash : c ≠ '-'
  ne_equals : c ≠ '='

instance : DecidablePred ValueChar := fun c =>
  decidable_of_iff (c.toNat < 128 ∧ c.toLower = c ∧ c ≠ '-' ∧ c ≠ '=')
    ⟨fun ⟨ascii, lower, dash, equals⟩ => ⟨ascii, lower, dash, equals⟩,
      fun ⟨ascii, lower, dash, equals⟩ => ⟨ascii, lower, dash, equals⟩⟩

theorem valueChar_of_isDigit {c : Char} (h : c.isDigit = true) : ValueChar c := by
  have all : ∀ n < 128, (Char.ofNat n).isDigit = true → ValueChar (Char.ofNat n) := by
    decide +kernel
  have high : c.toNat ≤ 57 := (Char.isDigit_iff_toNat.mp h).2
  have hvalue := all c.toNat (Nat.lt_of_le_of_lt high (by decide))
  rw [Char.ofNat_toNat] at hvalue
  exact hvalue h

theorem value_spec {u : Use} {value : String} (h : u.value? = some value) :
    value.toList ≠ [] ∧ ∀ c ∈ value.toList, ValueChar c := by
  cases u with
  | memorySize size =>
      cases h
      exact ⟨size.toList_ne_nil, fun c hc => valueChar_of_isDigit (size.isDigit_of_mem hc)⟩
  | eof rule =>
      cases h
      have hlabel : rule.label.toList ≠ [] ∧ rule.label.toList.all (ValueChar ·) = true := by
        cases rule <;> decide
      exact ⟨hlabel.1, by simpa using hlabel.2⟩
  | safe => cases h
  | verbose => cases h

variable {u : Use} {name word value : String}

theorem name_spec (h : u.Named name word) :
    name.toList.head? = some '-' ∧ '=' ∉ name.toList ∧ name ≠ "--" := by
  obtain ⟨switch, hswitch⟩ := u.exists_switchOf
  apply names_spec switch hswitch.listed
  obtain ⟨rfl | rfl, -⟩ := h <;> simp [hswitch.names]

theorem ascii_name (h : u.Named name word) : ∀ c ∈ name.toList, c.toNat < 128 := by
  have hall : name.toList.all (·.toNat < 128) = true := by
    obtain ⟨rfl | rfl, -⟩ := h <;> cases u.key <;> decide
  simpa using hall

/-- A spelling in capitals is folded into the spelling, and what stands behind it is kept. -/
theorem foldCase_append (h : u.Named name word) {rest : String}
    (hrest : ∀ c ∈ rest.toList, c.toNat < 128 ∧ c.toLower = c) :
    Invocation.foldCase (word ++ rest) = name ++ rest := by
  have ascii : ∀ c ∈ word.toList, c.toNat < 128 := by
    intro c hc
    apply Text.ascii_of_toLower
    exact ascii_name h _ (h.2 ▸ List.mem_map_of_mem hc)
  -- the word need not begin with a dash by its spelling, but its lower-case form does
  have dashed : word.toList.head? = some '-' := by
    apply Text.head?_lower
    rw [Text.lower_of_ascii ascii, h.2]
    exact (name_spec h).1
  have hfold : (Invocation.foldCase (word ++ rest)).toList =
      (word.toList ++ rest.toList).map Char.toLower := by
    rw [Invocation.toList_foldCase_of_ascii, String.toList_append]
    · rw [String.toList_append, List.head?_append, dashed]
      rfl
    · intro c hc
      rw [String.toList_append] at hc
      obtain hc | hc := List.mem_append.mp hc
      · exact ascii c hc
      · exact (hrest c hc).1
  have hkept : rest.toList.map Char.toLower = rest.toList := by
    rw [List.map_congr_left fun c hc => (hrest c hc).2, List.map_id']
  apply String.toList_inj.mp
  rw [hfold, List.map_append, h.2, hkept, String.toList_append]

theorem foldCase_name (h : u.Named name word) : Invocation.foldCase word = name := by
  have hfold : Invocation.foldCase (word ++ "") = name ++ "" := foldCase_append h nofun
  rwa [String.append_empty, String.append_empty] at hfold

theorem lookup?_name {switch : Switch RunSwitch} (hswitch : u.SwitchOf switch)
    (h : u.Named name word) : grammar.lookup? name.toList = some switch := by
  apply lookup?_of_mem hswitch.listed
  obtain ⟨rfl | rfl, -⟩ := h <;> simp [hswitch.names]

theorem classWord_name {switch : Switch RunSwitch} (hswitch : u.SwitchOf switch)
    (h : u.Named name word) :
    classWord grammar name.toList = .ok (.known switch name.toList none) := by
  have known := lookup?_name hswitch h
  obtain ⟨rest, hrest⟩ := List.head?_eq_some_iff.mp (name_spec h).1
  rw [hrest] at known ⊢
  exact classWord_spelled known

theorem classWord_name_assigned {switch : Switch RunSwitch} (hswitch : u.SwitchOf switch)
    (h : u.Named name word) (value : String) :
    classWord grammar (name ++ ("=" ++ value)).toList =
      .ok (.known switch name.toList (some value.toList)) := by
  have known := lookup?_name hswitch h
  obtain ⟨hdash, hequals, -⟩ := name_spec h
  obtain ⟨rest, hrest⟩ := List.head?_eq_some_iff.mp hdash
  have hchars : (name ++ ("=" ++ value)).toList = '-' :: rest ++ '=' :: value.toList := by
    simp [hrest]
  rw [hrest] at known hequals
  rw [hchars, hrest]
  exact classWord_assigned known hequals (lookup?_assigned _ _)

theorem classWord_letter_joined {switch : Switch RunSwitch} (hswitch : u.SwitchOf switch)
    (h : u.Named (letter u.key) word) (given : u.value? = some value) :
    classWord grammar (letter u.key ++ value).toList =
      .ok (.known switch (letter u.key).toList (some value.toList)) := by
  have known := lookup?_name hswitch h
  obtain ⟨hne, hchars⟩ := value_spec given
  obtain ⟨c, hletter, hdash, hequals⟩ := exists_letter u.key
  have apart : '=' ∉ '-' :: c :: value.toList := by
    rintro (_ | ⟨_, _ | ⟨_, hmem⟩⟩)
    · exact hequals rfl
    · exact (hchars _ hmem).ne_equals rfl
  rw [hletter] at known
  rw [String.toList_append, hletter]
  exact classWord_joined known hdash apart (lookup?_joined hdash hne)

theorem not_dashed_value (given : u.value? = some value) : value.toList.head? ≠ some '-' := by
  intro h
  exact ((value_spec given).2 '-' (List.mem_of_head? h)).ne_dash rfl

section Value

variable {switch : Switch RunSwitch} (hswitch : u.SwitchOf switch)
variable (given : u.value? = some value)
include hswitch given

theorem SwitchOf.takes : switch.takesValue = true := by
  rw [hswitch.takesValue, given]
  rfl

theorem SwitchOf.entry_value : u.entry = (switch.key, .value value) := by
  rw [entry, given, hswitch.key]

theorem SwitchOf.records_apart (named : u.Named name word) :
    Records grammar [(Invocation.foldCase word).toList, (Invocation.foldCase value).toList]
      [u.entry] := by
  have plain := not_dashed_value given
  rw [foldCase_name named, Invocation.foldCase_of_not_dashed plain, hswitch.entry_value given]
  exact Records.apart (hswitch.takes given) hswitch.goesOn (hswitch.accepts value given)
    (ne_separator_of_plain plain) (classWord_name hswitch named)
    (toList_ne_separator (name_spec named).2.2) (classWord_not_dashed plain)

theorem SwitchOf.records_attached {spelling : List Char}
    (hword : classWord grammar word.toList = .ok (.known switch spelling (some value.toList)))
    (hkept : word.toList ≠ ['-', '-']) : Records grammar [word.toList] [u.entry] := by
  rw [hswitch.entry_value given]
  exact Records.attached (hswitch.takes given) hswitch.goesOn (hswitch.accepts value given)
    (ne_separator_of_plain (not_dashed_value given)) hword hkept

theorem SwitchOf.records_assigned (named : u.Named name word) :
    Records grammar [(Invocation.foldCase (word ++ "=" ++ value)).toList] [u.entry] := by
  have hfold : Invocation.foldCase (word ++ "=" ++ value) = name ++ ("=" ++ value) := by
    rw [String.append_assoc]
    apply foldCase_append named
    intro c hc
    obtain rfl | hc : c = '=' ∨ c ∈ value.toList := by simpa using hc
    · decide
    · have hchar := (value_spec given).2 c hc
      exact ⟨hchar.ascii, hchar.lower⟩
  rw [hfold]
  apply hswitch.records_attached given (classWord_name_assigned hswitch named value)
  intro h
  simpa using congrArg ('=' ∈ ·) h

theorem SwitchOf.records_joined (named : u.Named (letter u.key) word) :
    Records grammar [(Invocation.foldCase (word ++ value)).toList] [u.entry] := by
  have hfold : Invocation.foldCase (word ++ value) = letter u.key ++ value := by
    apply foldCase_append named
    intro c hc
    have hchar := (value_spec given).2 c hc
    exact ⟨hchar.ascii, hchar.lower⟩
  obtain ⟨c, hletter, hdash, -⟩ := exists_letter u.key
  rw [hfold]
  apply hswitch.records_attached given (classWord_letter_joined hswitch named given)
  rw [String.toList_append, hletter]
  intro h
  exact hdash (List.cons.inj (List.cons.inj h).2).1

end Value

theorem SwitchOf.records_alone {switch : Switch RunSwitch} (hswitch : u.SwitchOf switch)
    (bare : u.value? = none) (named : u.Named name word) :
    Records grammar [(Invocation.foldCase word).toList] [u.entry] := by
  have hentry : u.entry = (switch.key, .bare) := by rw [entry, bare, hswitch.key]
  have alone : switch.takesValue = false := by
    rw [hswitch.takesValue, bare]
    rfl
  rw [foldCase_name named, hentry]
  exact Records.alone (classWord_name hswitch named)
    (toList_ne_separator (name_spec named).2.2) alone hswitch.goesOn

/-- However a switch is written, its words record what it sets. -/
theorem Written.records {words : List String} (h : u.Written words) :
    Records grammar ((words.map Invocation.foldCase).map String.toList) [u.entry] := by
  obtain ⟨switch, hswitch⟩ := u.exists_switchOf
  cases h with
  | alone named bare => exact hswitch.records_alone bare named
  | apart named given => exact hswitch.records_apart given named
  | assigned named given => exact hswitch.records_assigned given named
  | joined named given => exact hswitch.records_joined given named

end Use

structure Group where
  use : Use
  words : List String
  written : use.Written words

theorem records_of_groups (groups : List Group) :
    Records grammar (((groups.flatMap Group.words).map Invocation.foldCase).map String.toList)
      (groups.map fun group => group.use.entry) := by
  induction groups with
  | nil => exact Records.nil grammar
  | cons group groups ih =>
      rw [List.flatMap_cons, List.map_append, List.map_append, List.map_cons]
      exact Records.append group.written.records ih

end RunSwitch

namespace Invocation

open CommandLine RunSwitch

section Entries

variable {r : Reading RunSwitch} {uses : List Use} (taken : r.taken = uses.map Use.entry)
include taken

/-- The last use that gives a value to a switch decides. -/
theorem valueOf_entries {α : Type} {key : RunSwitch} {pick : Use → Option α} {text : α → String}
    (picks : ∀ {u a}, pick u = some a → u.entry = (key, .value (text a)))
    (skips : ∀ {u}, pick u = none → u.key ≠ key) (otherwise : α) :
    valueOf r key (text otherwise) =
      some (text ((uses.filterMap pick).getLastD otherwise)) := by
  obtain ⟨entries, operand, extras⟩ := r
  obtain rfl : entries = uses.map Use.entry := taken
  -- on the end of the list, where the look-up begins
  induction uses using List.reverseRecOn with
  | nil => rfl
  | append_singleton uses u ih =>
      have hlast : (⟨(uses ++ [u]).map Use.entry, operand, extras⟩ : Reading RunSwitch) =
          Reading.record ⟨uses.map Use.entry, operand, extras⟩ [u.entry] := by
        rw [List.map_append, List.map_singleton, Reading.record]
      unfold valueOf at ih ⊢
      rw [hlast, Reading.given?_record, List.filterMap_append]
      cases hpick : pick u with
      | some a => simp [picks hpick, hpick]
      | none =>
          have hkey : u.entry.1 ≠ key := skips hpick
          simp [hkey, hpick, ih]

theorem memorySize_of_entries : (ofReading r).memorySize =
    some ((uses.filterMap Use.size?).getLastD .standard).text :=
  valueOf_entries taken Use.entry_of_size? Use.key_of_size? StepSize.Numeral.standard

theorem eof_of_entries : (ofReading r).eof =
    some ((uses.filterMap Use.rule?).getLastD .allOnes).label :=
  valueOf_entries taken Use.entry_of_rule? Use.key_of_rule? EndOfInput.allOnes

theorem safe_of_entries : (ofReading r).safe = true ↔ .safe ∈ uses := by
  have hkey : ∀ u : Use, u.key = .safe ↔ u = .safe := by
    intro u
    cases u <;> simp [Use.key]
  change r.met .safe = true ↔ _
  simp [Reading.met_iff, taken, Use.entry, hkey]

theorem verbose_of_entries : (ofReading r).verbose = true ↔ .verbose ∈ uses := by
  have hkey : ∀ u : Use, u.key = .verbose ↔ u = .verbose := by
    intro u
    cases u <;> simp [Use.key]
  change r.met .verbose = true ↔ _
  simp [Reading.met_iff, taken, Use.entry, hkey]

end Entries

/-- Switches may be written in any order, in any of their ways and in capitals, with the path in
front, behind or between them. The line is accepted, the path is taken as it is, the flags say
whether their switches occur, and a value is the one that was given last, or the standard one if
none was given. The configuration has just these values. -/
theorem switches_commute {path : String} (plain : path.toList.head? ≠ some '-')
    (front back : List Group) :
    let uses := (front ++ back).map Group.use
    let size := (uses.filterMap Use.size?).getLastD .standard
    let rule := (uses.filterMap Use.rule?).getLastD .allOnes
    ∃ i, parse (front.flatMap Group.words ++ path :: back.flatMap Group.words) = .ok i ∧
      i.program = FileTree.plainPath path ∧ (i.safe = true ↔ .safe ∈ uses) ∧
      (i.verbose = true ↔ .verbose ∈ uses) ∧ i.memorySize = some size.text ∧
      i.eof = some rule.label ∧
      i.config = .ok { stepSize := .int size.cells, strict := i.safe, eof := rule } := by
  intro uses size rule
  let r : Reading RunSwitch := { taken := uses.map Use.entry, operand := some path }
  have hread : CommandLine.read grammar ((front.flatMap Group.words ++
      path :: back.flatMap Group.words).map foldCase) = .ok r := by
    rw [List.map_append, List.map_cons, foldCase_of_not_dashed plain,
      read_around rfl (records_of_groups front) (records_of_groups back) plain]
    simp [r, uses, Function.comp_def]
  have hsize : (ofReading r).memorySize = some size.text := memorySize_of_entries rfl
  have heof : (ofReading r).eof = some rule.label := eof_of_entries rfl
  have hcells : StepSize.check (setting (ofReading r).memorySize) = .ok size.cells := by
    rw [hsize]
    exact size.check_text
  refine ⟨ofReading r, ?_, rfl, safe_of_entries rfl, verbose_of_entries rfl, hsize, heof,
    config_of_checked hcells heof⟩
  rw [parse, hread]

/-- Of two step sizes and two rules for the end of the input the later ones count, whichever way
they are written and whichever side of the path they are on. -/
theorem mixed_switches_commute :
    ∃ i, parse ["-S", "--Memory-Size=007", "Prog.nib", "-Eunchanged", "-e", "zero", "-m16"] =
        .ok i ∧ i.program = "Prog.nib" ∧ i.safe = true ∧ i.verbose = false ∧
      i.memorySize = some "16" ∧ i.eof = some "zero" ∧
      i.config = .ok { stepSize := .int 16, strict := i.safe, eof := .zero } := by
  let seven : StepSize.Numeral := ⟨"007", by decide, by decide, by decide, by decide⟩
  let sixteen : StepSize.Numeral := ⟨"16", by decide, by decide, by decide, by decide⟩
  have long : (Use.memorySize seven).Named "--memory-size" "--Memory-Size" :=
    ⟨.inr rfl, by decide⟩
  have capital : (Use.eof .unchanged).Named "-e" "-E" := ⟨.inl rfl, by decide⟩
  have short : (Use.memorySize sixteen).Named "-m" "-m" := ⟨.inl rfl, by decide⟩
  let front : List Group :=
    [⟨.safe, ["-S"], .alone ⟨.inl rfl, by decide⟩ rfl⟩,
      ⟨.memorySize seven, ["--Memory-Size=007"], .assigned long rfl⟩]
  let back : List Group :=
    [⟨.eof .unchanged, ["-Eunchanged"], .joined capital rfl⟩,
      ⟨.eof .zero, ["-e", "zero"], .apart ⟨.inl rfl, by decide⟩ rfl⟩,
      ⟨.memorySize sixteen, ["-m16"], .joined short rfl⟩]
  obtain ⟨i, hparse, program, safe, verbose, size, rule, config⟩ :=
    switches_commute (by decide : "Prog.nib".toList.head? ≠ some '-') front back
  have quiet : i.verbose = false := by
    rw [← Bool.not_eq_true, verbose]
    simp [front, back]
  have hconfig : i.config =
      .ok { stepSize := .int sixteen.cells, strict := i.safe, eof := .zero } := config
  have hcells : sixteen.cells = 16 := by decide
  rw [hcells] at hconfig
  exact ⟨i, hparse, program, safe.mpr (.head _), quiet, size, rule, hconfig⟩

end Invocation

end NibTape

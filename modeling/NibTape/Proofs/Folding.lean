import NibTape.Proofs.Casing
import NibTape.Proofs.Provenance

/-!
# Which values of a command line are put in lower case

The spelling of a switch may use capitals, so words that begin with a dash are read in lower
case. That is decided before it is known what a word is: a path behind the separator, a negative
number or a value attached to a switch is changed along with it. A word that begins with
anything else is taken as it is.

So the values of a line are what its words supply, but with the words that begin with a dash in
lower case. A value behind an equals sign is read as its lower-case form would be read in a word
of its own.
-/

namespace NibTape

namespace CommandLine

variable {κ : Type} {g : Grammar κ} {switch : Switch κ} {name value word : List Char}

/-! ### The classes of words -/

theorem length_partialReadings_le (exactly : g.abbreviations = false) (word : List Char) :
    (partialReadings g word).length ≤ 1 := by
  unfold partialReadings
  split
  · simp [exactly]
  · split <;> simp
  · simp

theorem exists_classDashed (exactly : g.abbreviations = false) (word : List Char) :
    ∃ token, classDashed g word = .ok token := by
  have single := length_partialReadings_le exactly word
  unfold classDashed
  split
  · exact ⟨_, rfl⟩
  · split
    · exact ⟨_, rfl⟩
    · exact ⟨_, rfl⟩
    · rename_i hnone hmore
      match hreadings : partialReadings g word with
      | [] => exact (hnone hreadings).elim
      | [(_, _, _)] => exact (hmore _ _ _ hreadings).elim
      | _ :: _ :: _ => simp [hreadings] at single

/-- Without abbreviations every word has a class. -/
theorem exists_classWord (exactly : g.abbreviations = false) (word : List Char) :
    ∃ token, classWord g word = .ok token := by
  unfold classWord
  split
  · split
    · exact ⟨_, rfl⟩
    · split
      · exact ⟨_, rfl⟩
      · exact exists_classDashed exactly _
  · exact ⟨_, rfl⟩

theorem ne_separator_of_plain (h : word.head? ≠ some '-') : word ≠ ['-', '-'] := by
  rintro rfl
  exact h rfl

theorem toList_ne_separator {w : String} (h : w ≠ "--") : w.toList ≠ ['-', '-'] :=
  fun heq => h (String.toList_inj.mp heq)

theorem tokens_cons {token : Token κ} (hword : word ≠ ['-', '-'])
    (htoken : classWord g word = .ok token) (rest : List (List Char)) :
    tokens g (word :: rest) = (tokens g rest).map (token :: ·) := by
  rw [tokens, if_neg hword, htoken]
  cases tokens g rest <;> rfl

/-- The words in front of the separator are classed one by one. -/
theorem tokens_append (exactly : g.abbreviations = false) {front : List (List Char)}
    (hfront : ['-', '-'] ∉ front) :
    ∃ classed, ∀ rest, tokens g (front ++ rest) = (tokens g rest).map (classed ++ ·) := by
  induction front with
  | nil => exact ⟨[], fun rest => by cases h : tokens g rest <;> simp [h, Except.map]⟩
  | cons word front ih =>
      have hword : word ≠ ['-', '-'] := (List.ne_of_not_mem_cons hfront).symm
      obtain ⟨token, htoken⟩ := exists_classWord exactly word
      obtain ⟨classed, hclassed⟩ := ih (List.not_mem_of_not_mem_cons hfront)
      refine ⟨token :: classed, fun rest => ?_⟩
      rw [List.cons_append, tokens_cons hword htoken, hclassed]
      cases tokens g rest <;> rfl

theorem classWord_spelled {rest : List Char} (known : g.lookup? ('-' :: rest) = some switch) :
    classWord g ('-' :: rest) = .ok (.known switch ('-' :: rest) none) := by
  simp [classWord, known]

theorem classWord_not_dashed (h : word.head? ≠ some '-') :
    classWord g word = .ok (.plain word) := by
  unfold classWord
  split
  · exact (h rfl).elim
  · rfl

theorem splitEquals?_append (hname : '=' ∉ name) (value : List Char) :
    splitEquals? (name ++ '=' :: value) = some (name, value) := by
  have kept : ∀ c ∈ name, (c != '=') = true := by
    intro c hc
    simpa using fun heq : c = '=' => hname (heq ▸ hc)
  rw [splitEquals?, List.dropWhile_append_of_pos kept, List.takeWhile_append_of_pos kept]
  simp

theorem classWord_assigned {rest : List Char} (known : g.lookup? ('-' :: rest) = some switch)
    (hname : '=' ∉ '-' :: rest) (new : g.lookup? ('-' :: rest ++ '=' :: value) = none) :
    classWord g ('-' :: rest ++ '=' :: value) =
      .ok (.known switch ('-' :: rest) (some value)) := by
  have spelled : spelledOut? g ('-' :: rest ++ '=' :: value) =
      some (.known switch ('-' :: rest) (some value)) := by
    rw [spelledOut?, splitEquals?_append hname]
    simp [known]
  rw [List.cons_append] at new spelled ⊢
  simp [classWord, new, classDashed, spelled]

/-! ### Attached values and values apart -/

section Alike

variable {switch' : Switch κ} {spelling spelling' : List Char} {joined : Chain κ}
variable {attached attached' : Option (List Char)} {front rest rest' : List (Token κ)}

/-- A switch that lacks its value ends the reading. -/
theorem consume_lacking (hchain : chainOf g switch spelling attached = .ok joined)
    (hnone : joined.attached = none) (takes : joined.last.takesValue = true)
    (hrest : ∀ w tail, rest ≠ .plain w :: tail) (r : Reading κ) :
    consume g r (.known switch spelling attached :: rest) =
      .error (.usage (.expectedValue joined.last.names)) := by
  rw [consume, hchain]
  simp only [hnone, takes, if_true]

/-- A plain word with no separator behind it is the operand, or it is set aside. -/
theorem consume_plain (hrest : ∀ tail, rest ≠ .separator :: tail) (r : Reading κ) :
    consume g r (.plain word :: rest) =
      consume g (if wantsOperand g r then r.setOperand word else r.skip word) rest := by
  rw [consume.eq_5 _ _ _ _ hrest]
  split <;> rfl

/-- A separator with no plain word behind it is set aside. -/
theorem consume_separator (hrest : ∀ w tail, rest ≠ .plain w :: tail) (r : Reading κ) :
    consume g r (.separator :: rest) = consume g (r.skip ['-', '-']) rest :=
  consume.eq_7 _ _ _ hrest

/-- Tokens followed by a switch begin as they did, or with the switch. -/
theorem append_known_ne {token : Token κ} (hfront : ∀ tail, front ≠ token :: tail)
    (other : ∀ s w v, token ≠ .known s w v) (tail : List (Token κ)) :
    front ++ .known switch spelling attached :: rest ≠ token :: tail := by
  intro h
  cases front with
  | nil => exact other _ _ _ (List.cons.inj h).1.symm
  | cons first front => exact hfront front (by rw [(List.cons.inj h).1])

/-- What two endings of a line that begin with switches do alike, they do alike behind any
tokens: none of these uses a switch as a value or drops it. -/
theorem consume_append_alike
    (alike : ∀ r, consume g r (.known switch spelling attached :: rest) =
      consume g r (.known switch' spelling' attached' :: rest'))
    (front : List (Token κ)) (r : Reading κ) :
    consume g r (front ++ .known switch spelling attached :: rest) =
      consume g r (front ++ .known switch' spelling' attached' :: rest') := by
  have plain_ne : ∀ w (s : Switch κ) spelt v, Token.plain w ≠ .known s spelt v := by
    intro w s spelt v h
    cases h
  have separator_ne : ∀ (s : Switch κ) spelt v, Token.separator ≠ .known s spelt v := by
    intro s spelt v h
    cases h
  fun_induction consume g r front with
  | case1 r => exact alike r
  -- the last token in front decides by what comes next, which is a switch in both lines
  | case8 r _ _ _ _ joined hchain hnone takes hnext =>
      rw [List.cons_append, List.cons_append,
        consume_lacking hchain hnone takes (fun w => append_known_ne (hnext w) (plain_ne w)),
        consume_lacking hchain hnone takes (fun w => append_known_ne (hnext w) (plain_ne w))]
  | case13 r word _ hnext hwants ih =>
      rw [List.cons_append, List.cons_append, consume_plain (append_known_ne hnext separator_ne),
        consume_plain (append_known_ne hnext separator_ne), if_pos hwants, ih]
  | case14 r word _ hnext hwants ih =>
      rw [List.cons_append, List.cons_append, consume_plain (append_known_ne hnext separator_ne),
        consume_plain (append_known_ne hnext separator_ne), if_neg hwants, ih]
  | case17 r _ hnext ih =>
      rw [List.cons_append, List.cons_append,
        consume_separator (fun w => append_known_ne (hnext w) (plain_ne w)),
        consume_separator (fun w => append_known_ne (hnext w) (plain_ne w)), ih]
  | _ => simp only [List.cons_append, consume, if_true, if_false, Bool.false_eq_true, *]

/-- A value attached to its switch is used like a plain word behind the switch. -/
theorem consume_attached (takes : switch.takesValue = true) (spelling value : List Char)
    (front rest : List (Token κ)) (r : Reading κ) :
    consume g r (front ++ .known switch spelling (some value) :: rest) =
      consume g r (front ++ .known switch spelling none :: .plain value :: rest) := by
  apply consume_append_alike
  intro r
  have hattached : chainOf g switch spelling (some value) = .ok ⟨[], switch, some value⟩ := by
    rw [chainOf, chain.eq_def, if_pos takes]
  have hapart : chainOf g switch spelling none = .ok ⟨[], switch, none⟩ := rfl
  rw [consume, consume, hattached, hapart]
  simp only [takes, if_true]
  rfl

end Alike

/-- On a line, a word with an attached value may be split into the spelling and the value, if
the value is plain by itself. -/
theorem read_attached (exactly : g.abbreviations = false) (takes : switch.takesValue = true)
    {before after : List String} {joined spelling value : String} (hbefore : "--" ∉ before)
    (separators : joined ≠ "--" ∧ spelling ≠ "--" ∧ value ≠ "--")
    (hjoined : classWord g joined.toList =
      .ok (.known switch spelling.toList (some value.toList)))
    (hspelling : classWord g spelling.toList = .ok (.known switch spelling.toList none))
    (hvalue : classWord g value.toList = .ok (.plain value.toList)) :
    read g (before ++ joined :: after) = read g (before ++ spelling :: value :: after) := by
  have hfront : ['-', '-'] ∉ before.map String.toList := by
    intro h
    obtain ⟨w, hw, heq⟩ := List.mem_map.mp h
    exact toList_ne_separator (fun h => hbefore (h ▸ hw)) heq
  obtain ⟨classed, hclassed⟩ := tokens_append exactly hfront
  have hline : tokens g ((before ++ joined :: after).map String.toList) =
      (tokens g (after.map String.toList)).map fun others =>
        classed ++ .known switch spelling.toList (some value.toList) :: others := by
    rw [List.map_append, List.map_cons, hclassed,
      tokens_cons (toList_ne_separator separators.1) hjoined]
    cases tokens g (after.map String.toList) <;> rfl
  have hsplit : tokens g ((before ++ spelling :: value :: after).map String.toList) =
      (tokens g (after.map String.toList)).map fun others =>
        classed ++ .known switch spelling.toList none :: .plain value.toList :: others := by
    rw [List.map_append, List.map_cons, List.map_cons, hclassed,
      tokens_cons (toList_ne_separator separators.2.1) hspelling,
      tokens_cons (toList_ne_separator separators.2.2) hvalue]
    cases tokens g (after.map String.toList) <;> rfl
  rw [read, read, hline, hsplit]
  cases tokens g (after.map String.toList) with
  | error e => rfl
  | ok others =>
      change consume g {} _ >>= settle g = consume g {} _ >>= settle g
      rw [consume_attached takes]

end CommandLine

theorem eq_ok_of_toOption {ε α : Type} {result : Except ε α} {a : α}
    (h : result.toOption = some a) : result = .ok a := by
  cases result with
  | error e => cases h
  | ok b => rw [Option.some.inj h]

namespace RunSwitch

open CommandLine

/-- What the spellings of the switches have in common. -/
theorem names_spec : ∀ s ∈ grammar.switches, ∀ n ∈ s.names,
    n.toList.head? = some '-' ∧ '=' ∉ n.toList ∧ n ≠ "--" := by
  decide

/-- No spelling belongs to two switches. -/
theorem lookup?_of_mem {switch : Switch RunSwitch} {n : String}
    (listed : switch ∈ grammar.switches) (named : n ∈ switch.names) :
    grammar.lookup? n.toList = some switch := by
  simp only [grammar, List.mem_cons, List.not_mem_nil, or_false] at listed
  obtain rfl | rfl | rfl | rfl := listed <;>
    obtain rfl | rfl : n = _ ∨ n = _ := by simpa using named
  all_goals rfl

/-- A word with an equals sign is no spelling. -/
theorem lookup?_assigned (name value : List Char) :
    grammar.lookup? (name ++ '=' :: value) = none := by
  cases h : grammar.lookup? (name ++ '=' :: value) with
  | none => rfl
  | some switch =>
      obtain ⟨listed, named⟩ := Grammar.lookup?_eq_some h
      have hequals := (names_spec switch listed _ named).2.1
      simp at hequals

theorem takesValue_of_key : ∀ s ∈ grammar.switches,
    s.key = .memorySize ∨ s.key = .eof → s.takesValue = true := by
  decide

end RunSwitch

namespace Invocation

open CommandLine

variable {words before after : List String} {switch : Switch RunSwitch} {i : Invocation}

/-- Where the value of a switch comes from, on a line of some words: it is the one that stands
for a switch that is not met, or a word supplies it, or it was lost. Words that begin with a dash
supply their lower-case form. -/
inductive ValueFrom (words : List String) (key : RunSwitch) (otherwise : String) :
    Option String → Prop where
  | absent : ValueFrom words key otherwise (some otherwise)
  | supplied (switch : Switch RunSwitch) (listed : switch ∈ RunSwitch.grammar.switches)
      (hkey : switch.key = key) (word : String) (hword : word ∈ words) (value : List Char)
      (supplies : Supplies switch (foldCase word).toList value)
      (accepted : switch.complaint (String.ofList value) = none) :
      ValueFrom words key otherwise (some (String.ofList value))
  | lost (switch : Switch RunSwitch) (listed : switch ∈ RunSwitch.grammar.switches)
      (hkey : switch.key = key) (word : String) (hword : word ∈ words)
      (supplies : Supplies switch (foldCase word).toList ['-', '-']) :
      ValueFrom words key otherwise none

theorem parse_eq_ok (h : parse words = .ok i) :
    ∃ r, read RunSwitch.grammar (words.map foldCase) = .ok r ∧ i = ofReading r := by
  unfold parse at h
  split at h
  · rename_i r hread
    cases h
    exact ⟨r, hread, rfl⟩
  · cases h
  · cases h

/-- The value of a switch that takes one comes from the words that the reading was drawn from. -/
theorem valueFrom_of_drawn {r : Reading RunSwitch} {key : RunSwitch}
    (drawn : r.Drawn RunSwitch.grammar ((words.map foldCase).map String.toList))
    (hkey : key = .memorySize ∨ key = .eof) (otherwise : String) :
    ValueFrom words key otherwise (valueOf r key otherwise) := by
  have mem : ∀ {chars}, chars ∈ (words.map foldCase).map String.toList →
      ∃ word ∈ words, (foldCase word).toList = chars := by
    intro chars h
    simpa using h
  unfold valueOf
  cases hgiven : r.given? key with
  | none => exact .absent
  | some given =>
      cases drawn.taken _ (Reading.mem_of_given? hgiven) with
      | bare switch listed alone =>
          have takes := RunSwitch.takesValue_of_key switch listed hkey
          rw [alone] at takes
          cases takes
      | value switch listed chars value hchars supplies accepted =>
          obtain ⟨word, hword, rfl⟩ := mem hchars
          exact .supplied switch listed rfl word hword value supplies accepted
      | nothing switch listed chars hchars supplies =>
          obtain ⟨word, hword, rfl⟩ := mem hchars
          exact .lost switch listed rfl word hword supplies

/-- The path of a line is one of its words, and its other values come from its words. -/
theorem drawn_of_parse (h : parse words = .ok i) :
    (∃ word ∈ words, i.program = FileTree.plainPath (foldCase word)) ∧
    ValueFrom words .memorySize (toString StepSize.standard) i.memorySize ∧
    ValueFrom words .eof EndOfInput.allOnes.label i.eof := by
  obtain ⟨r, hread, rfl⟩ := parse_eq_ok h
  obtain ⟨drawn, operand⟩ := drawn_of_read rfl hread
  refine ⟨?_, valueFrom_of_drawn drawn (.inl rfl) _, valueFrom_of_drawn drawn (.inr rfl) _⟩
  obtain ⟨path, hpath⟩ := Option.isSome_iff_exists.mp (operand rfl)
  obtain ⟨chars, hchars, rfl⟩ := drawn.operand path hpath
  obtain ⟨word, hword, rfl⟩ : ∃ word ∈ words, (foldCase word).toList = chars := by
    simpa using hchars
  refine ⟨word, hword, ?_⟩
  rw [ofReading, hpath, Option.getD_some, String.ofList_toList]

/-- A value behind an equals sign is read like its lower-case form in a word of its own. -/
theorem parse_assigned (listed : switch ∈ RunSwitch.grammar.switches)
    (takes : switch.takesValue = true) {name value : String}
    (named : foldCase name ∈ switch.names) (hbefore : "--" ∉ before)
    (hvalue : value.toList.head? ≠ some '-') :
    parse (before ++ (name ++ "=" ++ value) :: after) =
      parse (before ++ name :: String.ofList (Text.lower value.toList) :: after) := by
  obtain ⟨hdash, hequals, hseparator⟩ := RunSwitch.names_spec switch listed _ named
  have known := RunSwitch.lookup?_of_mem listed named
  have hname : name.toList.head? = some '-' := head?_of_foldCase hdash
  obtain ⟨rest, hrest⟩ := List.head?_eq_some_iff.mp hdash
  rw [hrest] at known hequals
  generalize hlower : String.ofList (Text.lower value.toList) = lowered
  have hlowered : lowered.toList.head? ≠ some '-' := by
    rw [← hlower, String.toList_ofList]
    exact fun h => hvalue (Text.head?_lower h)
  have hseparated : "--" ∉ before.map foldCase := by
    intro h
    obtain ⟨word, hword, hfold⟩ := List.mem_map.mp h
    exact hbefore (foldCase_eq_separator hfold ▸ hword)
  have hjoined : (foldCase name ++ "=" ++ lowered).toList =
      '-' :: rest ++ '=' :: lowered.toList := by simp [hrest]
  have hread : read RunSwitch.grammar (before.map foldCase ++
        (foldCase name ++ "=" ++ lowered) :: after.map foldCase) =
      read RunSwitch.grammar (before.map foldCase ++
        foldCase name :: lowered :: after.map foldCase) := by
    apply read_attached rfl takes hseparated
    · refine ⟨?_, hseparator, ?_⟩
      · intro h
        simpa [h] using congrArg ('=' ∈ ·) hjoined
      · rintro rfl
        exact hlowered rfl
    · rw [hjoined, hrest]
      exact classWord_assigned known hequals (RunSwitch.lookup?_assigned _ _)
    · rw [hrest]
      exact classWord_spelled known
    · exact classWord_not_dashed hlowered
  simp only [parse, List.map_append, List.map_cons, foldCase_assigned hname, hlower,
    foldCase_of_not_dashed hlowered, hread]

/-- What a line asks for is what its words supply, once each word that begins with a dash is in
lower case: the path is one of these words in its plain form, and the step size and the rule for
the end of the input are supplied by one of them, unless the switch was not met. All other words
are read as they are. A value behind an equals sign belongs to a word that begins with a dash,
so it is read like its lower-case form in a word of its own. -/
theorem dashed_words_are_folded_whole (words : List String) :
    (∀ i, parse words = .ok i →
      (∃ word ∈ words, i.program = FileTree.plainPath (foldCase word)) ∧
      ValueFrom words .memorySize (toString StepSize.standard) i.memorySize ∧
      ValueFrom words .eof EndOfInput.allOnes.label i.eof) ∧
    (∀ word ∈ words, foldCase word =
      if word.toList.head? = some '-' then String.ofList (Text.lower word.toList) else word) ∧
    ∀ switch ∈ RunSwitch.grammar.switches, switch.takesValue = true →
      ∀ before name value after, words = before ++ (name ++ "=" ++ value) :: after →
        "--" ∉ before → foldCase name ∈ switch.names → value.toList.head? ≠ some '-' →
        parse words =
          parse (before ++ name :: String.ofList (Text.lower value.toList) :: after) := by
  refine ⟨fun i h => drawn_of_parse h, fun word _ => foldCase_eq word, ?_⟩
  rintro switch listed takes before name value after rfl hbefore named hvalue
  exact parse_assigned listed takes named hbefore hvalue

/-- A switch in capitals changes neither the path nor a value in a word of its own; a value in
capitals is accepted behind an equals sign as if it had been given in small letters. -/
theorem capital_switches_keep_the_path :
    ∃ i, parse ["Prog.NIB", "-M", "16", "--EOF=ZERO"] = .ok i ∧ i.program = "Prog.NIB" ∧
      i.eof = some "zero" ∧
      ValueFrom ["Prog.NIB", "-M", "16", "--EOF=ZERO"] .eof "ff" i.eof ∧
      parse ["Prog.NIB", "-M", "16", "--EOF", "zero"] = .ok i := by
  obtain ⟨drawn, -, apart⟩ := dashed_words_are_folded_whole ["Prog.NIB", "-M", "16", "--EOF=ZERO"]
  have hparse : parse ["Prog.NIB", "-M", "16", "--EOF=ZERO"] =
      .ok ⟨"Prog.NIB", some "16", false, some "zero", false⟩ :=
    eq_ok_of_toOption (by decide +kernel)
  obtain ⟨switch, listed, takes, named⟩ : ∃ switch ∈ RunSwitch.grammar.switches,
      switch.takesValue = true ∧ foldCase "--EOF" ∈ switch.names := by decide +kernel
  have hsplit := apart switch listed takes ["Prog.NIB", "-M", "16"] "--EOF" "ZERO" [] rfl
    (by decide) named (by decide)
  have hlower : String.ofList (Text.lower "ZERO".toList) = "zero" := by decide +kernel
  rw [hlower] at hsplit
  exact ⟨_, hparse, rfl, rfl, (drawn _ hparse).2.2, hsplit ▸ hparse⟩

/-- A path behind the separator is changed, so it is none of the words of the line. A value in
capitals is accepted behind an equals sign and refused in a word of its own. -/
theorem path_behind_separator_is_folded :
    (∃ i, parse ["--", "-Prog.NIB"] = .ok i ∧
      ∀ word ∈ ["--", "-Prog.NIB"], i.program ≠ FileTree.plainPath word) ∧
    (∃ i, parse ["p", "--eof=ZERO"] = .ok i) ∧ ∀ i, parse ["p", "--eof", "ZERO"] ≠ .ok i := by
  have hpath : parse ["--", "-Prog.NIB"] =
      .ok ⟨"-prog.nib", some "32768", false, some "ff", false⟩ :=
    eq_ok_of_toOption (by decide +kernel)
  have hvalue : parse ["p", "--eof=ZERO"] = .ok ⟨"p", some "32768", false, some "zero", false⟩ :=
    eq_ok_of_toOption (by decide +kernel)
  have hrefused : (parse ["p", "--eof", "ZERO"]).toOption = none := by decide +kernel
  refine ⟨⟨_, hpath, by decide +kernel⟩, ⟨_, hvalue⟩, ?_⟩
  intro i h
  rw [h] at hrefused
  cases hrefused

end Invocation

end NibTape

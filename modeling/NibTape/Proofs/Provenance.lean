import NibTape.CommandLine.Reading

/-!
# Where a command line's values come from

Reading a command line makes up nothing. Every token stands for a word of the line. The operand
is a word; the value of a switch is a word as well, or it is attached to the switch: behind an
equals sign after a spelling of the switch, or right behind its letter, in front of which other
letters may stand. A value that was lost was spelled like the separator.

Every switch that was met belongs to the grammar. It was met alone only if it takes no value,
and a value was accepted only if the switch has no complaint about it.
-/

namespace NibTape.CommandLine

variable {κ : Type} {g : Grammar κ}

theorem Grammar.lookup?_eq_some {spelling : List Char} {switch : Switch κ}
    (h : g.lookup? spelling = some switch) :
    switch ∈ g.switches ∧ String.ofList spelling ∈ switch.names := by
  obtain ⟨entry, hfind, rfl⟩ := Option.map_eq_some_iff.mp h
  have hspelling : entry.1 = spelling := by simpa using List.find?_some hfind
  obtain ⟨s, hs, n, hn, rfl⟩ :
      ∃ s ∈ g.switches, ∃ n ∈ s.names, (n.toList, s) = entry := by
    simpa [Grammar.spellings] using List.mem_of_find?_eq_some hfind
  rw [← hspelling, String.ofList_toList]
  exact ⟨hs, hn⟩

theorem splitEquals?_eq_some {word spelling attached : List Char}
    (h : splitEquals? word = some (spelling, attached)) :
    word = spelling ++ '=' :: attached ∧ spelling = word.takeWhile (· != '=') := by
  unfold splitEquals? at h
  split at h
  · rename_i c rest hrest
    cases h
    have hc : c = '=' := by
      have := List.head?_dropWhile_not (· != '=') word
      rw [hrest] at this
      simpa using this
    subst hc
    exact ⟨by rw [← hrest, List.takeWhile_append_dropWhile], rfl⟩
  · cases h

/-! ### Tokens -/

/-- The word that a token stands for, in a grammar without abbreviations. -/
inductive Token.StandsFor (g : Grammar κ) : Token κ → List Char → Prop where
  | plain (word : List Char) : StandsFor g (.plain word) word
  | separator : StandsFor g .separator ['-', '-']
  | spelled (switch : Switch κ) (word : List Char) (known : g.lookup? word = some switch) :
      StandsFor g (.known switch word none) word
  | assigned (switch : Switch κ) (rest attached : List Char)
      (known : g.lookup? ('-' :: rest) = some switch) :
      StandsFor g (.known switch ('-' :: rest) (some attached)) ('-' :: rest ++ '=' :: attached)
  | joined (switch : Switch κ) (c : Char) (attached : List Char)
      (known : g.lookup? ['-', c] = some switch) :
      StandsFor g (.known switch ['-', c] (some attached)) ('-' :: c :: attached)
  | unknown (word : List Char) : StandsFor g (.unknown word) word

theorem standsFor_of_spelledOut? {rest : List Char} {token : Token κ}
    (h : spelledOut? g ('-' :: rest) = some token) : token.StandsFor g ('-' :: rest) := by
  unfold spelledOut? at h
  split at h
  · rename_i spelling attached hsplit
    obtain ⟨switch, known, rfl⟩ := Option.map_eq_some_iff.mp h
    obtain ⟨hword, hspelling⟩ := splitEquals?_eq_some hsplit
    obtain ⟨front, hfront⟩ : ∃ front, spelling = '-' :: front :=
      ⟨_, by rw [hspelling, List.takeWhile_cons_of_pos (by decide)]⟩
    subst hfront
    rw [hword]
    exact .assigned switch front attached known
  · cases h

theorem standsFor_of_partial {rest spelling : List Char} {switch : Switch κ}
    {attached : Option (List Char)} (exactly : g.abbreviations = false)
    (h : (spelling, switch, attached) ∈ partialReadings g ('-' :: rest)) :
    (Token.known switch spelling attached).StandsFor g ('-' :: rest) := by
  unfold partialReadings at h
  split at h
  · rw [exactly] at h
    cases h
  · rename_i c value _ hword
    split at h
    · rename_i other known
      obtain ⟨rfl, rfl, rfl⟩ : spelling = ['-', c] ∧ switch = other ∧ attached = some value := by
        simpa using h
      rw [hword]
      exact .joined switch c value known
    · cases h
  · cases h

theorem standsFor_of_classWord {word : List Char} {token : Token κ}
    (exactly : g.abbreviations = false) (h : classWord g word = .ok token) :
    token.StandsFor g word := by
  unfold classWord at h
  split at h
  · rename_i rest
    split at h
    · rename_i switch known
      cases h
      exact .spelled switch _ known
    · split at h
      · cases h
        exact .plain _
      · unfold classDashed at h
        split at h
        · rename_i token' hspelled
          cases h
          exact standsFor_of_spelledOut? hspelled
        · split at h
          · cases h
            unfold classUnknown
            split
            · exact .plain _
            · exact .unknown _
          · rename_i spelling switch attached hreadings
            cases h
            exact standsFor_of_partial exactly (by rw [hreadings]; exact List.mem_singleton_self _)
          · cases h
  · cases h
    exact .plain _

/-- Every token of a line stands for one of its words. -/
theorem standsFor_of_tokens {words : List (List Char)} {classed : List (Token κ)}
    (exactly : g.abbreviations = false) (h : tokens g words = .ok classed) :
    ∀ token ∈ classed, ∃ word ∈ words, token.StandsFor g word := by
  induction words generalizing classed with
  | nil =>
      cases h
      nofun
  | cons word words ih =>
      rw [tokens] at h
      split at h
      · rename_i hword
        cases h
        intro token htoken
        obtain rfl | hlater := List.mem_cons.mp htoken
        · exact ⟨word, List.mem_cons_self, hword ▸ .separator⟩
        · obtain ⟨w, hw, rfl⟩ := List.mem_map.mp hlater
          exact ⟨w, List.mem_cons_of_mem _ hw, .plain w⟩
      · cases hclass : classWord g word with
        | error e =>
            rw [hclass] at h
            cases h
        | ok first =>
            cases hothers : tokens g words with
            | error e =>
                rw [hclass, hothers] at h
                cases h
            | ok others =>
                rw [hclass, hothers] at h
                cases h
                intro token htoken
                obtain rfl | hlater := List.mem_cons.mp htoken
                · exact ⟨word, List.mem_cons_self, standsFor_of_classWord exactly hclass⟩
                · obtain ⟨w, hw, stands⟩ := ih hothers token hlater
                  exact ⟨w, List.mem_cons_of_mem _ hw, stands⟩

/-! ### Values -/

inductive Supplies (switch : Switch κ) : (word value : List Char) → Prop where
  /-- The word itself is the value. -/
  | apart (word : List Char) : Supplies switch word word
  /-- The value stands behind a spelling of the switch and an equals sign. -/
  | assigned (spelling value : List Char) (named : String.ofList spelling ∈ switch.names) :
      Supplies switch (spelling ++ '=' :: value) value
  /-- The value stands right behind the letter of the switch. -/
  | joined (front : List Char) (c : Char) (value : List Char)
      (named : String.ofList ['-', c] ∈ switch.names) :
      Supplies switch ('-' :: front ++ c :: value) value

/-- How a word with something attached to its first switch is split into switches. -/
inductive Chain.Splits (g : Grammar κ) : Switch κ → Bool → List Char → Chain κ → Prop where
  /-- A switch that takes a value takes all that is attached to it. -/
  | value {switch : Switch κ} (short : Bool) (attached : List Char) :
      Splits g switch short attached ⟨[], switch, some attached⟩
  /-- The one letter that is attached is another switch. -/
  | last {switch next : Switch κ} {c : Char} (alone : switch.takesValue = false)
      (known : g.lookup? ['-', c] = some next) : Splits g switch true [c] ⟨[switch], next, none⟩
  /-- The first letter that is attached is another switch, to which the rest is attached. -/
  | more {switch next : Switch κ} {c : Char} {rest : List Char} {joined : Chain κ}
      (alone : switch.takesValue = false) (known : g.lookup? ['-', c] = some next)
      (splits : Splits g next true rest joined) :
      Splits g switch true (c :: rest) { joined with bare := switch :: joined.bare }

theorem splits_of_chain {switch : Switch κ} {short : Bool} {attached : List Char}
    {joined : Chain κ} (h : chain g switch short attached = .ok joined) :
    Chain.Splits g switch short attached joined := by
  induction attached generalizing switch short joined with
  | nil =>
      rw [chain] at h
      split at h
      · cases h
        exact .value short []
      · cases h
  | cons c rest ih =>
      rw [chain] at h
      split at h
      · cases h
        exact .value short (c :: rest)
      · rename_i halone
        have alone : switch.takesValue = false := by simpa using halone
        dsimp only at h
        split at h
        · rename_i hshort
          subst hshort
          split at h
          · cases h
          · rename_i next known
            split at h
            · rename_i hrest
              cases h
              rw [List.isEmpty_iff.mp hrest]
              exact .last alone known
            · split at h
              · rename_i inner hinner
                cases h
                exact .more alone known (ih hinner)
              · cases h
        · cases h

namespace Chain.Splits

variable {switch : Switch κ} {short : Bool} {attached value : List Char} {joined : Chain κ}

/-- What is attached to a chain belongs to the first switch or follows the letter of the last. -/
theorem attached_eq (splits : Splits g switch short attached joined)
    (hvalue : joined.attached = some value) :
    (joined.last = switch ∧ value = attached) ∨
      short = true ∧ ∃ front c, g.lookup? ['-', c] = some joined.last ∧
        attached = front ++ c :: value := by
  induction splits with
  | value =>
      cases hvalue
      exact .inl ⟨rfl, rfl⟩
  | last => cases hvalue
  | @more _ _ c _ _ _ known _ ih =>
      obtain ⟨hlast, rfl⟩ | ⟨-, front, d, hknown, rfl⟩ := ih hvalue
      · exact .inr ⟨rfl, [], c, hlast ▸ known, rfl⟩
      · exact .inr ⟨rfl, c :: front, d, hknown, rfl⟩

/-- The switches of a chain belong to the grammar, and all but the last take no value. -/
theorem switches (splits : Splits g switch short attached joined)
    (hswitch : switch ∈ g.switches) :
    joined.last ∈ g.switches ∧ ∀ s ∈ joined.bare, s ∈ g.switches ∧ s.takesValue = false := by
  induction splits with
  | value => exact ⟨hswitch, nofun⟩
  | last alone known =>
      refine ⟨(Grammar.lookup?_eq_some known).1, ?_⟩
      intro s hs
      obtain rfl := List.mem_singleton.mp hs
      exact ⟨hswitch, alone⟩
  | more alone known _ ih =>
      obtain ⟨hlast, hbare⟩ := ih (Grammar.lookup?_eq_some known).1
      refine ⟨hlast, ?_⟩
      intro s hs
      obtain rfl | hs := List.mem_cons.mp hs
      · exact ⟨hswitch, alone⟩
      · exact hbare s hs

end Chain.Splits

/-- The switches of a word that stands for a known switch, and where their value comes from. -/
theorem chainOf_spec {switch : Switch κ} {spelling word : List Char}
    {attached : Option (List Char)} {joined : Chain κ}
    (stands : (Token.known switch spelling attached).StandsFor g word)
    (h : chainOf g switch spelling attached = .ok joined) :
    joined.last ∈ g.switches ∧
      (∀ s ∈ joined.bare, s ∈ g.switches ∧ s.takesValue = false) ∧
      ∀ value, joined.attached = some value → Supplies joined.last word value := by
  cases stands with
  | spelled _ _ known =>
      cases h
      exact ⟨(Grammar.lookup?_eq_some known).1, nofun, nofun⟩
  | assigned _ rest text known =>
      obtain ⟨hswitch, named⟩ := Grammar.lookup?_eq_some known
      have splits := splits_of_chain h
      obtain ⟨hlast, hbare⟩ := splits.switches hswitch
      refine ⟨hlast, hbare, ?_⟩
      intro value hvalue
      obtain ⟨hsame, rfl⟩ | ⟨-, front, c, hknown, rfl⟩ := splits.attached_eq hvalue
      · rw [hsame]
        exact .assigned _ _ named
      · have letter := (Grammar.lookup?_eq_some hknown).2
        have hword : '-' :: rest ++ '=' :: (front ++ c :: value) =
            '-' :: (rest ++ '=' :: front) ++ c :: value := by simp
        rw [hword]
        exact .joined _ c value letter
  | joined _ c text known =>
      obtain ⟨hswitch, named⟩ := Grammar.lookup?_eq_some known
      have splits := splits_of_chain h
      obtain ⟨hlast, hbare⟩ := splits.switches hswitch
      refine ⟨hlast, hbare, ?_⟩
      intro value hvalue
      obtain ⟨hsame, rfl⟩ | ⟨-, front, d, hknown, rfl⟩ := splits.attached_eq hvalue
      · rw [hsame]
        exact .joined [] c value named
      · exact .joined (c :: front) d value (Grammar.lookup?_eq_some hknown).2

/-! ### Readings -/

/-- What it means that a switch was met with something, on a line of some words. -/
inductive Meets (g : Grammar κ) (words : List (List Char)) : κ → Given → Prop where
  /-- It takes no value. -/
  | bare (switch : Switch κ) (listed : switch ∈ g.switches) (alone : switch.takesValue = false) :
      Meets g words switch.key .bare
  /-- A word supplies its value, of which it does not complain. -/
  | value (switch : Switch κ) (listed : switch ∈ g.switches) (word value : List Char)
      (hword : word ∈ words) (supplies : Supplies switch word value)
      (accepted : switch.complaint (String.ofList value) = none) :
      Meets g words switch.key (.value (String.ofList value))
  /-- A word supplies a value that is spelled like the separator. -/
  | nothing (switch : Switch κ) (listed : switch ∈ g.switches) (word : List Char)
      (hword : word ∈ words) (supplies : Supplies switch word ['-', '-']) :
      Meets g words switch.key .nothing

namespace Reading

variable {r r' : Reading κ} {words : List (List Char)} {switch : Switch κ} {given : Given}

theorem mem_of_given? [DecidableEq κ] {key : κ}
    (h : r.given? key = some given) : (key, given) ∈ r.taken := by
  obtain ⟨entry, hfind, rfl⟩ := Option.map_eq_some_iff.mp h
  have hkey : entry.1 = key := by simpa using List.find?_some hfind
  rw [← hkey]
  exact List.mem_reverse.mp (List.mem_of_find?_eq_some hfind)

/-- Everything in a reading comes from the words of the line. -/
structure Drawn (g : Grammar κ) (words : List (List Char)) (r : Reading κ) : Prop where
  operand : ∀ operand, r.operand = some operand → ∃ word ∈ words, operand = String.ofList word
  taken : ∀ entry ∈ r.taken, Meets g words entry.1 entry.2

theorem Drawn.empty : ({} : Reading κ).Drawn g words := by
  refine ⟨?_, ?_⟩
  · rintro operand ⟨⟩
  · rintro entry ⟨⟩

theorem Drawn.skip (drawn : r.Drawn g words) (word : List Char) : (r.skip word).Drawn g words :=
  ⟨drawn.operand, drawn.taken⟩

theorem Drawn.setOperand (drawn : r.Drawn g words) {word : List Char} (hword : word ∈ words) :
    (r.setOperand word).Drawn g words := by
  refine ⟨?_, drawn.taken⟩
  intro operand h
  exact ⟨word, hword, (Option.some.inj h).symm⟩

/-- A switch that was met is recorded, and it had no complaint about its value. -/
theorem take_eq_ok (h : r.take switch given = .ok r') :
    r' = { r with taken := r.taken ++ [(switch.key, given)] } ∧
      ∀ word, given = .value word → switch.complaint word = none := by
  unfold take at h
  split at h
  · cases h
  · dsimp only at h
    split at h
    · cases h
    · rename_i hcomplaint
      cases h
      refine ⟨rfl, ?_⟩
      rintro word rfl
      exact hcomplaint

theorem Drawn.take (drawn : r.Drawn g words) (h : r.take switch given = .ok r')
    (meets : (∀ word, given = .value word → switch.complaint word = none) →
      Meets g words switch.key given) : r'.Drawn g words := by
  obtain ⟨rfl, accepted⟩ := take_eq_ok h
  refine ⟨drawn.operand, ?_⟩
  intro entry hentry
  obtain hbefore | hnow := List.mem_append.mp hentry
  · exact drawn.taken entry hbefore
  · rw [List.mem_singleton.mp hnow]
    exact meets accepted

theorem Drawn.takeBare (drawn : r.Drawn g words) {switches : List (Switch κ)}
    (bare : ∀ s ∈ switches, s ∈ g.switches ∧ s.takesValue = false)
    (h : r.takeBare switches = .ok r') : r'.Drawn g words := by
  induction switches generalizing r with
  | nil =>
      cases h
      exact drawn
  | cons s switches ih =>
      cases hfirst : r.take s .bare with
      | error e =>
          rw [takeBare, hfirst] at h
          cases h
      | ok q =>
          rw [takeBare, hfirst] at h
          obtain ⟨listed, alone⟩ := bare s List.mem_cons_self
          exact ih (drawn.take hfirst fun _ => .bare s listed alone)
            (fun t ht => bare t (List.mem_cons_of_mem s ht)) h

theorem Drawn.takeChain (drawn : r.Drawn g words) {joined : Chain κ}
    (bare : ∀ s ∈ joined.bare, s ∈ g.switches ∧ s.takesValue = false)
    (h : r.takeChain joined given = .ok r')
    (meets : (∀ word, given = .value word → joined.last.complaint word = none) →
      Meets g words joined.last.key given) : r'.Drawn g words := by
  cases hfirst : r.takeBare joined.bare with
  | error e =>
      rw [Reading.takeChain, hfirst] at h
      cases h
  | ok q =>
      rw [Reading.takeChain, hfirst] at h
      exact (drawn.takeBare bare hfirst).take h meets

end Reading

/-- A switch that is given its value by a word was met with it. -/
theorem meets_ofWord {switch : Switch κ} {words : List (List Char)} {word value : List Char}
    (listed : switch ∈ g.switches) (hword : word ∈ words) (supplies : Supplies switch word value)
    (accepted : ∀ w, Given.ofWord value = .value w → switch.complaint w = none) :
    Meets g words switch.key (.ofWord value) := by
  unfold Given.ofWord at accepted ⊢
  split
  · rename_i hlost
    exact .nothing switch listed word hword (hlost ▸ supplies)
  · rename_i hkept
    rw [if_neg hkept] at accepted
    exact .value switch listed word value hword supplies (accepted _ rfl)

theorem mem_of_plain {words : List (List Char)} {plain : List Char}
    (h : ∃ word ∈ words, (Token.plain plain).StandsFor g word) : plain ∈ words := by
  obtain ⟨_, hword, stands⟩ := h
  cases stands
  exact hword

/-- Whatever is read of tokens that stand for words comes from these words. -/
theorem drawn_of_consume {words : List (List Char)} {classed : List (Token κ)}
    {r r' : Reading κ} (stand : ∀ token ∈ classed, ∃ word ∈ words, token.StandsFor g word)
    (drawn : r.Drawn g words) (h : consume g r classed = .ok r') : r'.Drawn g words := by
  fun_induction consume g r classed with
  | case1 =>
      cases h
      exact drawn
  | case3 | case5 | case7 | case8 | case10 => cases h
  -- a known switch: its value is attached, is the next word, or is none
  | case4 r switch spelling attached rest joined hchain value hvalue q htake ih =>
      obtain ⟨word, hword, stands⟩ := stand _ (.head _)
      obtain ⟨listed, bare, supplies⟩ := chainOf_spec stands hchain
      refine ih (fun t ht => stand t (.tail _ ht)) ?_ h
      exact drawn.takeChain bare htake (meets_ofWord listed hword (supplies value hvalue))
  | case6 r switch spelling attached joined hchain _ _ value rest q htake ih =>
      obtain ⟨word, hword, stands⟩ := stand _ (.head _)
      obtain ⟨listed, bare, -⟩ := chainOf_spec stands hchain
      have hvalue := mem_of_plain (stand _ (.tail _ (.head _)))
      refine ih (fun t ht => stand t (.tail _ (.tail _ ht))) ?_ h
      exact drawn.takeChain bare htake (meets_ofWord listed hvalue (.apart value))
  | case9 r switch spelling attached rest joined hchain _ halone q htake ih =>
      obtain ⟨word, hword, stands⟩ := stand _ (.head _)
      obtain ⟨listed, bare, -⟩ := chainOf_spec stands hchain
      refine ih (fun t ht => stand t (.tail _ ht)) ?_ h
      exact drawn.takeChain bare htake fun _ => .bare joined.last listed (by simpa using halone)
  -- the operand, with or without a separator next to it
  | case11 r word rest _ ih =>
      refine ih (fun t ht => stand t (.tail _ (.tail _ ht))) ?_ h
      exact drawn.setOperand (mem_of_plain (stand _ (.head _)))
  | case13 r word rest _ _ ih =>
      refine ih (fun t ht => stand t (.tail _ ht)) ?_ h
      exact drawn.setOperand (mem_of_plain (stand _ (.head _)))
  | case15 r word rest _ ih =>
      refine ih (fun t ht => stand t (.tail _ (.tail _ ht))) ?_ h
      exact drawn.setOperand (mem_of_plain (stand _ (.tail _ (.head _))))
  -- words that are set aside
  | case2 r word rest ih => exact ih (fun t ht => stand t (.tail _ ht)) (drawn.skip word) h
  | case12 r word rest _ ih =>
      exact ih (fun t ht => stand t (.tail _ (.tail _ ht))) ((drawn.skip word).skip _) h
  | case14 r word rest _ _ ih => exact ih (fun t ht => stand t (.tail _ ht)) (drawn.skip word) h
  | case16 r word rest _ ih =>
      exact ih (fun t ht => stand t (.tail _ (.tail _ ht))) ((drawn.skip _).skip word) h
  | case17 r rest _ ih => exact ih (fun t ht => stand t (.tail _ ht)) (drawn.skip _) h

/-- Everything in the reading of a line comes from its words, and an operand that the grammar
asks for was met. -/
theorem drawn_of_read {words : List String} {r : Reading κ} (exactly : g.abbreviations = false)
    (h : read g words = .ok r) :
    r.Drawn g (words.map String.toList) ∧ (g.operand.isSome → r.operand.isSome) := by
  cases hclass : tokens g (words.map String.toList) with
  | error e =>
      rw [read, hclass] at h
      cases h
  | ok classed =>
      rw [read, hclass] at h
      cases hconsume : consume g {} classed with
      | error e =>
          simp only [hconsume, pure, Except.pure, bind, Except.bind] at h
          cases h
      | ok q =>
          simp only [hconsume, pure, Except.pure, bind, Except.bind] at h
          have drawn := drawn_of_consume (standsFor_of_tokens exactly hclass)
            .empty hconsume
          unfold settle at h
          split at h
          · cases h
          · rename_i hoperand
            split at h
            · cases h
              refine ⟨drawn, ?_⟩
              intro hasked
              rw [Option.isSome_iff_ne_none]
              intro hnone
              obtain ⟨name, hname⟩ := Option.isSome_iff_exists.mp hasked
              exact hoperand name hname hnone
            · cases h

end NibTape.CommandLine

import NibTape.Proofs.Safety

/-!
# Where the two policies part

The policies treat two situations differently: a move left from the first cell, and a loop
end with no open loop. As long as an execution meets neither, the strict and the permissive
machine go through the same states, fault for fault. The strict check never fires on the
way, because the cursor that the permissive machine keeps on a cell is the strict one too.

A test run that tells the policies apart has therefore come, under both of them and in the
same state, to one of the two situations.
-/

namespace NibTape

/-- The next instruction is one that the two policies treat differently. -/
def Parting (program : Program) (s : State) : Prop :=
  (program.opcode? s.ip = some .decrPtr ∧ s.tape.cursor = 0) ∨
  (program.opcode? s.ip = some .loopEnd ∧ s.loops.toList = [])

namespace Machine

variable {m : Machine} {n : Nat} {start s t : State}

def under (m : Machine) (policy : Policy) : Machine := { m with policy }

/-- In its first `n` steps a machine does not move left from the first cell, and does not
report a loop end. -/
def Tame (m : Machine) (start : State) (n : Nat) : Prop :=
  ∀ k < n, ∀ s, m.Path start k s →
    ¬ (m.program.opcode? s.ip = some .decrPtr ∧ s.tape.cursor = 0) ∧
    ∀ ip t, m.step s ≠ .error ⟨.unexpectedLoopEnd ip, t⟩

theorem tame_zero (m : Machine) (s : State) : m.Tame s 0 := fun _ hk => by omega

theorem Tame.cons (hleft : ¬ (m.program.opcode? s.ip = some .decrPtr ∧ s.tape.cursor = 0))
    (hstep : m.step s = .ok t) (rest : m.Tame t n) : m.Tame s (n + 1) := by
  intro k hk u hp
  cases k with
  | zero =>
      rw [Path.zero_iff.mp hp]
      refine ⟨hleft, ?_⟩
      intro ip v herror
      rw [hstep] at herror
      cases herror
  | succ k =>
      obtain ⟨v, hv, hrest⟩ := hp.uncons
      rw [hstep] at hv
      rw [← Except.ok.inj hv] at hrest
      exact rest k (by omega) u hrest

/-- With the cursor on a cell, the policies agree on every step that does not part them. -/
theorem step_under (sound : s.tape.Sound) (housed : s.tape.cursor < s.tape.length)
    (together : ¬ Parting m.program s) :
    (m.under .strict).step s = (m.under .permissive).step s := by
  rcases Nat.lt_or_ge s.ip m.program.size with hlt | hge
  · cases hop : m.program.opcode? s.ip with
    | none =>
        rw [step_inert (m := m.under .strict) hlt hop,
          step_inert (m := m.under .permissive) hlt hop]
    | some op =>
        rw [step_allowed (m := m.under .strict) hop (denied?_of_lt housed),
          step_allowed (m := m.under .permissive) hop (denied?_of_lt housed)]
        cases op with
        | decrPtr =>
            have hpos : 0 < s.tape.cursor := by
              apply Nat.pos_of_ne_zero
              intro hzero
              exact together (.inl ⟨hop, hzero⟩)
            have hspan := Nat.le_of_lt sound.cursor
            simp only [perform, under, Policy.retreat_of_pos _ hpos hspan]
        | loopEnd =>
            cases hpop : s.loops.pop? with
            | none => exact (together (.inr ⟨hop, (LoopStack.pop?_eq_none_iff _).mp hpop⟩)).elim
            | some popped => simp only [perform, closeLoop, under, Policy.leaveLoop, hpop]
        | _ => rfl
  · have hend := finished_iff.mpr hge
    rw [step_of_finished (m := m.under .strict) hend,
      step_of_finished (m := m.under .permissive) hend]

/-- A move left never fails, whatever the policy. -/
theorem step_ne_error_of_decrPtr (hop : m.program.opcode? s.ip = some .decrPtr) (h : Halt) :
    m.step s ≠ .error h := by
  rw [step_allowed hop rfl]
  intro herror
  cases herror

theorem step_under_of_valid (valid : (m.under .permissive).Valid s)
    (together : ¬ Parting m.program s) :
    (m.under .strict).step s = (m.under .permissive).step s :=
  step_under valid.tape (valid.sheltered rfl) together

/-- A tame strict execution meets nothing that parts the policies. -/
theorem Tame.not_parting (tame : (m.under .strict).Tame start n) {k : Nat} (hk : k < n)
    (hp : (m.under .strict).Path start k s) : ¬ Parting m.program s := by
  obtain ⟨moves, reports⟩ := tame k hk s hp
  rintro (hleft | ⟨hop, hempty⟩)
  · exact moves hleft
  · have hpop := (LoopStack.pop?_eq_none_iff _).mpr hempty
    exact reports _ _ (step_unexpected (m := m.under .strict) hop hpop rfl)

/-- Until something parts them, the two machines are in the same state after each step. -/
theorem path_under_iff (valid : (m.under .permissive).Valid start)
    (together : ∀ k < n, ∀ s, (m.under .strict).Path start k s → ¬ Parting m.program s)
    {k : Nat} (hk : k ≤ n) :
    (m.under .strict).Path start k s ↔ (m.under .permissive).Path start k s := by
  induction k generalizing s with
  | zero => simp
  | succ k ih =>
      have hstep : ∀ u, (m.under .strict).Path start k u →
          (m.under .strict).step u = (m.under .permissive).step u := by
        intro u hu
        have hvalid := ((ih (by omega)).mp hu).valid valid
        exact step_under_of_valid hvalid (together k (by omega) u hu)
      rw [Path.succ_iff, Path.succ_iff]
      constructor
      · rintro ⟨u, hu, hs⟩
        exact ⟨u, (ih (by omega)).mp hu, (hstep u hu).symm.trans hs⟩
      · rintro ⟨u, hu, hs⟩
        have hu' := (ih (by omega)).mpr hu
        exact ⟨u, hu', (hstep u hu').trans hs⟩

/-- Until something parts them, the two machines come equally far. -/
theorem proceed_under (valid : (m.under .permissive).Valid start)
    (together : ∀ k < n, ∀ s, (m.under .strict).Path start k s → ¬ Parting m.program s) :
    (m.under .strict).proceed n start = (m.under .permissive).proceed n start := by
  have paths : ∀ {k t}, k ≤ n → (m.under .strict).Path start k t →
      (m.under .permissive).Path start k t := by
    intro k t hk hp
    exact (path_under_iff valid together hk).mp hp
  have hreaches := reaches_proceed (m.under .strict) n start
  generalize (m.under .strict).proceed n start = r at hreaches
  symm
  apply proceed_of_reaches
  cases r with
  | running t => exact ⟨paths (Nat.le_refl n) hreaches.1, hreaches.2⟩
  | finished t =>
      obtain ⟨k, hk, hp, ht⟩ := hreaches
      exact ⟨k, hk, paths hk hp, ht⟩
  | faulted h =>
      obtain ⟨k, hk, t, hp, ht, hf⟩ := hreaches
      have hq := paths (Nat.le_of_lt hk) hp
      have hstep := step_under_of_valid (hq.valid valid) (together k hk t hp)
      exact ⟨k, hk, t, hq, ht, hstep.symm.trans hf⟩

/-- A budget that runs out before anything parts the machines gives both the same ending. -/
theorem runWithin_under {limit : Int} (valid : (m.under .permissive).Valid start)
    (together : ∀ k < (limit - start.steps).toNat, ∀ s,
      (m.under .strict).Path start k s → ¬ Parting m.program s) :
    (m.under .strict).runWithin limit start = (m.under .permissive).runWithin limit start := by
  unfold runWithin
  rw [proceed_under valid together]

/-- Runs that end differently came, within the budget and in one state, to an instruction
that parts them. The strict run is followed to the first such instruction. -/
theorem exists_parting_of_ne {limit : Int} (valid : (m.under .permissive).Valid start)
    (differ : (m.under .strict).runWithin limit start ≠
      (m.under .permissive).runWithin limit start) :
    ∃ (k : Nat) (s : State), k < (limit - start.steps).toNat ∧
      (m.under .strict).Path start k s ∧ (m.under .permissive).Path start k s ∧
      Parting m.program s := by
  apply Classical.byContradiction
  intro never
  apply differ
  apply runWithin_under valid
  intro k
  induction k using Nat.strongRecOn with
  | ind k ih =>
      intro hk s hp parting
      have hq := (path_under_iff valid (fun j hj u hu => ih j hj (by omega) u hu)
        (Nat.le_refl k)).mp hp
      exact never ⟨k, s, hk, hp, hq, parting⟩

/-- A step from a state in which both machines are fails under both alike, unless it is a
loop end with no open loop. A move left from the first cell does not fail at all. -/
theorem step_error_under_iff (valid : (m.under .permissive).Valid s)
    (hend : ¬ (m.program.opcode? s.ip = some .loopEnd ∧ s.loops.toList = [])) (h : Halt) :
    (m.under .strict).step s = .error h ↔ (m.under .permissive).step s = .error h := by
  by_cases hleft : m.program.opcode? s.ip = some .decrPtr
  · have fine : ∀ p, (m.under p).step s ≠ .error h :=
      fun p => step_ne_error_of_decrPtr (m := m.under p) hleft h
    exact ⟨fun he => (fine .strict he).elim, fun he => (fine .permissive he).elim⟩
  · have apart : ¬ Parting m.program s := by
      rintro (⟨hop, -⟩ | hstray)
      · exact hleft hop
      · exact hend hstray
    rw [step_under_of_valid valid apart]

end Machine

namespace Fuzz

/-- The outcomes of a comparison are those of the two runs. It takes place unless a budget that
cannot be written is used up. -/
theorem compare_cases (program : List UInt8) (limit : Int) :
    (∃ strict permissive,
      compare program limit = .ok (Comparison.ofOutcomes strict permissive) ∧
      Outcome.ofRun? ((machine program true).runWithin limit
        (State.initial standardStepSize standardInput)) = some strict ∧
      Outcome.ofRun? ((machine program false).runWithin limit
        (State.initial standardStepSize standardInput)) = some permissive) ∨
    (Nat.pow 10 Literal.maxDigits ≤ limit.natAbs ∧
      ∃ ip, compare program limit = .error (.fault (.stepLimit ip limit))) := by
  have valid : StepSize.ofInt standardStepSize = .ok standardStepSize := rfl
  have ends : ∀ strict,
      (∃ o, Outcome.ofRun? ((machine program strict).runWithin limit
        (State.initial standardStepSize standardInput)) = some o) ∨
      (Nat.pow 10 Literal.maxDigits ≤ limit.natAbs ∧
        ∃ ip, execute program strict standardInput (.int standardStepSize) limit =
          .error (.fault (.stepLimit ip limit))) := by
    intro strict
    let test := machine program strict
    let start := State.initial standardStepSize standardInput
    have hrun : test.run? 0 (some limit) start = some (test.runWithin limit start) := rfl
    obtain ⟨o, ho, -⟩ | ⟨hnone, ip, l, t, ⟨⟩, long, hr⟩ :=
      outcome_of_run (Machine.valid_initial test (by decide) _) hrun
    · exact .inl ⟨o, ho⟩
    · rw [hr] at hnone
      exact .inr ⟨long, ip, execute_of_untold valid hr hnone⟩
  obtain ⟨strict, hstrict⟩ | ⟨long, ip, hstrict⟩ := ends true
  · have hexecute := execute_of_valid valid hstrict
    obtain ⟨permissive, hpermissive⟩ | ⟨long, ip, hpermissive⟩ := ends false
    · refine .inl ⟨strict, permissive, ?_, hstrict, hpermissive⟩
      simp only [compare, hexecute, execute_of_valid valid hpermissive]
      rfl
    · refine .inr ⟨long, ip, ?_⟩
      simp only [compare, hexecute, hpermissive]
      rfl
  · refine .inr ⟨long, ip, ?_⟩
    simp only [compare, hstrict]
    rfl

/-- Two runs that end alike are no divergence. -/
theorem runWithin_ne_of_divergence {program : List UInt8} {limit : Int} {c : Comparison}
    (hcompare : compare program limit = .ok c) (differ : c.matched = false) :
    (machine program true).runWithin limit (State.initial standardStepSize standardInput) ≠
      (machine program false).runWithin limit
        (State.initial standardStepSize standardInput) := by
  intro same
  obtain ⟨strict, permissive, heq, hstrict, hpermissive⟩ | ⟨-, ip, heq⟩ :=
    compare_cases program limit
  · rw [same, hpermissive, Option.some.injEq] at hstrict
    rw [heq, Except.ok.injEq] at hcompare
    rw [← hcompare, ← hstrict] at differ
    simp [Comparison.ofOutcomes] at differ
  · rw [heq] at hcompare
    cases hcompare

end Fuzz

/-- As long as the strict machine neither moves left from the first cell nor reports a loop
end, both machines go through the same states and come equally far, and the next instruction
fails alike unless it is a loop end with no open loop. A comparison takes place, unless it uses
up a budget of more than 4300 digits, which cannot be told; if it finds a divergence, both runs
came within the budget and in one state to an instruction that parts the policies. -/
theorem policies_part_only_by_clamping :
    (∀ (m : Machine) (size : Int) (cells : Nat) (input : List UInt8) (n : Nat),
      StepSize.ofInt size = .ok cells →
      let start := State.initial cells input
      (m.under .strict).Tame start n →
      (m.under .strict).proceed n start = (m.under .permissive).proceed n start ∧
      (∀ s, (m.under .strict).Path start n s ↔ (m.under .permissive).Path start n s) ∧
      ∀ s h, (m.under .strict).Path start n s →
        ¬ (m.program.opcode? s.ip = some .loopEnd ∧ s.loops.toList = []) →
        ((m.under .strict).step s = .error h ↔ (m.under .permissive).step s = .error h)) ∧
    (∀ (bytes : List UInt8) (limit : Int),
      (∃ c, Fuzz.compare bytes limit = .ok c ∧
        let start := State.initial Fuzz.standardStepSize Fuzz.standardInput
        (c.matched = false →
          ∃ (k : Nat) (s : State), (k : Int) < limit ∧
            (Fuzz.machine bytes true).Path start k s ∧
            (Fuzz.machine bytes false).Path start k s ∧ Parting (Packed.unpack bytes) s)) ∨
      (Nat.pow 10 Literal.maxDigits ≤ limit.natAbs ∧
        ∃ ip, Fuzz.compare bytes limit = .error (.fault (.stepLimit ip limit)))) := by
  refine ⟨?_, ?_⟩
  · intro m size cells input n hsize start tame
    have pos : 0 < cells := (StepSize.ofInt_eq_ok_iff.mp hsize).2.1
    have valid := Machine.valid_initial (m.under .permissive) pos input
    have together : ∀ k < n, ∀ s, (m.under .strict).Path start k s → ¬ Parting m.program s :=
      fun k hk s hp => tame.not_parting hk hp
    have paths : ∀ s, (m.under .strict).Path start n s ↔ (m.under .permissive).Path start n s :=
      fun s => Machine.path_under_iff valid together (Nat.le_refl n)
    refine ⟨Machine.proceed_under valid together, paths, ?_⟩
    intro s h hp hend
    exact Machine.step_error_under_iff (((paths s).mp hp).valid valid) hend h
  · intro bytes limit
    refine (Fuzz.compare_cases bytes limit).imp_left ?_
    rintro ⟨strict, permissive, hcompare, -, -⟩
    refine ⟨_, hcompare, ?_⟩
    intro start differ
    have valid := Machine.valid_initial (Fuzz.machine bytes false) (by decide : 0 < 4)
      Fuzz.standardInput
    obtain ⟨k, s, hk, hp, hq, parting⟩ := Machine.exists_parting_of_ne
      (m := Fuzz.machine bytes false) valid (Fuzz.runWithin_ne_of_divergence hcompare differ)
    have hsteps : start.steps = 0 := rfl
    exact ⟨k, s, by omega, hp, hq, parting⟩

/-- The program `+>+<<+` in nibbles: the machines stay together for four steps and part at the
second move left, so that a test run tells them apart. -/
theorem policies_part_at_second_move_left :
    let m : Machine := { program := #[2, 3, 2, 6, 6, 2], policy := .strict, eof := .zero }
    let bytes : List UInt8 := [0x23, 0x26, 0x62]
    (m.under .strict).proceed 4 (State.initial 1 []) =
      (m.under .permissive).proceed 4 (State.initial 1 []) ∧
    ∃ (k : Nat) (s : State), (k : Int) < 100 ∧
      (Fuzz.machine bytes true).Path (State.initial 4 [3, 1]) k s ∧
      (Fuzz.machine bytes false).Path (State.initial 4 [3, 1]) k s ∧
      Parting (Packed.unpack bytes) s := by
  intro m bytes
  constructor
  · have tame : (m.under .strict).Tame (State.initial 1 []) 4 :=
      .cons (by decide) rfl (.cons (by decide) rfl (.cons (by decide) rfl
        (.cons (by decide) rfl (Machine.tame_zero _ _))))
    exact (policies_part_only_by_clamping.1 m 1 1 [] 4 rfl tame).1
  · have short : (100 : Int).natAbs < Nat.pow 10 Literal.maxDigits :=
      Nat.lt_of_lt_of_le (by decide) Decimal.billion_le
    have compared := policies_part_only_by_clamping.2 bytes 100
    obtain ⟨c, hcompare, parting⟩ := compared.resolve_right
      fun untold => Nat.not_le.mpr short untold.1
    apply parting
    have found : (Fuzz.compare bytes 100).toOption.map (·.matched) = some false := by rfl
    rw [hcompare] at found
    exact Option.some.inj found

end NibTape

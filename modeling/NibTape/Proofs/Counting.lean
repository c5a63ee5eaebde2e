import Mathlib.Tactic.Conv
import NibTape.Fuzz.Campaign
import NibTape.Proofs.Agreement
import NibTape.Proofs.Endless
import NibTape.Proofs.Overshoot

/-!
# What a campaign counts and reports

Each of the counters is the number of tests with some property, so the order of the tests does
not matter. That the counters fit together rests on what these properties have to do with each
other: a program that fails under the strict policy only is one on which the policies diverge,
and its budget was used up under neither of them.

A campaign counts the programs that it makes, one after the other, and reports the ones on which
the policies diverge under the numbers of their tests. From a seed all programs can be made, and
every program that is made is tested, so a campaign comes to its end. Only numbers of more than
4300 digits stand in the way: a budget that cannot be told when it is used up, and a number of
tests that cannot be written at the head of the text.
-/

namespace NibTape.Fuzz

open NibTape.Random

namespace Outcome

variable {a b : Outcome}

/-- Outcomes that count as the same: both budgets were used up, or the outcomes are of one kind
and hold the same. -/
inductive Alike : Outcome → Outcome → Prop where
  | exhausted (limit limit' : Int) : Alike (.exhausted limit) (.exhausted limit')
  | completed (output : List UInt8) : Alike (.completed output) (.completed output)
  | failed (reason : String) : Alike (.failed reason) (.failed reason)
  | none : Alike .none .none

theorem Alike.of_eq (h : a = b) : a.Alike b := by
  subst h
  cases a <;> constructor

theorem agrees_iff : a.agrees b = true ↔ a.Alike b := by
  constructor
  · intro h
    unfold agrees at h
    split at h
    · exact .exhausted _ _
    · exact .of_eq (beq_iff_eq.mp h)
  · rintro (_ | _ | _ | _) <;> simp [agrees]

instance : Decidable (a.Alike b) := decidable_of_iff _ agrees_iff

end Outcome

/-! ### Counters -/

namespace Statistics

/-- Each counter goes up by the number of comparisons that it is for. -/
theorem recordAll_eq (s : Statistics) (cs : List Comparison) :
    s.recordAll cs =
      { total := s.total + cs.length
        divergences := s.divergences + cs.countP fun c => !c.matched
        strictOnlyFailures := s.strictOnlyFailures +
          cs.countP fun c => c.strict.isFailed && c.permissive.isCompleted
        exhausted := s.exhausted +
          cs.countP fun c => c.strict.isExhausted || c.permissive.isExhausted } := by
  induction cs generalizing s with
  | nil => simp
  | cons c rest ih =>
      have htick : ∀ b : Bool, tick b = ((if b then 1 else 0 : Nat) : Int) := by decide
      rw [recordAll_cons, ih]
      simp only [record, htick, List.length_cons, List.countP_cons, mk.injEq]
      omega

end Statistics

def tally (pairs : List (Outcome × Outcome)) : Statistics :=
  Statistics.recordAll {} (pairs.map fun p => Comparison.ofOutcomes p.1 p.2)

variable {pairs : List (Outcome × Outcome)} {p : Outcome × Outcome}

def failsStrictOnly (p : Outcome × Outcome) : Bool := p.1.isFailed && p.2.isCompleted

def exhausts (p : Outcome × Outcome) : Bool := p.1.isExhausted || p.2.isExhausted

theorem tally_eq (pairs : List (Outcome × Outcome)) :
    tally pairs =
      { total := pairs.length
        divergences := pairs.countP fun p => ¬ p.1.Alike p.2
        strictOnlyFailures := pairs.countP failsStrictOnly
        exhausted := pairs.countP exhausts } := by
  have hdiverge : (fun p : Outcome × Outcome => !p.1.agrees p.2) =
      fun p => decide ¬ p.1.Alike p.2 := by
    funext p
    simp [← Outcome.agrees_iff]
  rw [tally, Statistics.recordAll_eq, ← hdiverge]
  simp only [List.length_map, List.countP_map, Int.zero_add]
  rfl

theorem tally_eq_of_perm {others : List (Outcome × Outcome)} (perm : others.Perm pairs) :
    tally others = tally pairs := by
  rw [tally_eq, tally_eq, perm.length_eq, perm.countP_eq, perm.countP_eq, perm.countP_eq]

theorem not_alike_of_failsStrictOnly (h : failsStrictOnly p = true) : ¬ p.1.Alike p.2 := by
  obtain ⟨strict, permissive⟩ := p
  rintro (_ | _ | _ | _) <;> cases h

theorem not_exhausts_of_failsStrictOnly (h : failsStrictOnly p = true) : exhausts p = false := by
  obtain ⟨strict, permissive⟩ := p
  cases strict <;> cases permissive <;> first | rfl | cases h

theorem strictOnlyFailures_le (pairs : List (Outcome × Outcome)) :
    pairs.countP failsStrictOnly ≤ pairs.countP fun p => ¬ p.1.Alike p.2 :=
  List.countP_mono_left fun _ _ h => decide_eq_true (not_alike_of_failsStrictOnly h)

theorem strictOnlyFailures_add_exhausted_le (pairs : List (Outcome × Outcome)) :
    pairs.countP failsStrictOnly + pairs.countP exhausts ≤ pairs.length := by
  have apart : pairs.countP failsStrictOnly ≤ pairs.countP fun p => ¬ exhausts p :=
    List.countP_mono_left fun _ _ h => by simp [not_exhausts_of_failsStrictOnly h]
  have hlength := List.length_eq_countP_add_countP exhausts (l := pairs)
  omega

/-- No generator makes an empty program. -/
theorem Generator.ne_nil_of_drawDefault {g : Generator} {s t : Supply} {bytes : List UInt8}
    (h : g.drawDefault s = .ok (bytes, t)) : bytes ≠ [] := by
  have random : ∀ {s t}, randomBytes maxLength s = .ok (bytes, t) → bytes ≠ [] := by
    intro s t h
    obtain ⟨length, u, hlength, h⟩ := Draw.bind_eq_ok.mp h
    obtain ⟨values, v, hvalues, h⟩ := Draw.bind_eq_ok.mp h
    obtain ⟨rfl, -⟩ := Draw.pure_eq_ok.mp h
    have pos := (Draw.oneTo_bounds hlength).1
    apply List.ne_nil_of_length_pos
    rw [List.length_map, Draw.length_of_times hvalues]
    exact pos
  have structured : ∀ {s t},
      structuredProgram maxInstructions maxDepth s = .ok (bytes, t) → bytes ≠ [] :=
    fun h => List.ne_nil_of_length_pos (length_structuredProgram h).1
  cases g with
  | random => exact random h
  | structured => exact structured h
  | mixed =>
      obtain ⟨k, u, -, h⟩ := Draw.bind_eq_ok.mp h
      split at h
      · exact random h
      · exact structured h

/-! ### Tests -/

namespace Campaign

def Test.outcomes (t : Test) : Outcome × Outcome := (t.comparison.strict, t.comparison.permissive)

/-- The outcomes of a test are those of its program under the two policies, and are compared. -/
structure Test.RanWithin (limit : Int) (t : Test) : Prop where
  strict : execute t.program true standardInput (.int standardStepSize) limit =
    .ok t.comparison.strict
  permissive : execute t.program false standardInput (.int standardStepSize) limit =
    .ok t.comparison.permissive
  compared : t.comparison = .ofOutcomes t.comparison.strict t.comparison.permissive

variable {limit : Int} {programs : List (List UInt8)} {tests : List Test} {t : Test}

theorem ranWithin_of_compare {program : List UInt8} {c : Comparison}
    (h : compare program limit = .ok c) : Test.RanWithin limit ⟨program, c⟩ := by
  obtain ⟨strict, permissive, hcompare, hstrict, hpermissive⟩ | ⟨-, ip, hcompare⟩ :=
    compare_cases program limit
  · rw [hcompare] at h
    cases h
    have valid : StepSize.ofInt standardStepSize = .ok standardStepSize := rfl
    exact ⟨execute_of_valid valid hstrict, execute_of_valid valid hpermissive, rfl⟩
  · rw [hcompare] at h
    cases h

/-- All programs are tested, unless one of them uses up a budget that cannot be written. -/
theorem testAll_cases (limit : Int) (programs : List (List UInt8)) :
    (Nat.pow 10 Literal.maxDigits ≤ limit.natAbs ∧
      ∃ ip, testAll limit programs = .error (.fault (.stepLimit ip limit))) ∨
    ∃ tests, testAll limit programs = .ok tests ∧ tests.map (·.program) = programs ∧
      ∀ t ∈ tests, t.RanWithin limit := by
  induction programs with
  | nil => exact .inr ⟨[], rfl, rfl, by simp⟩
  | cons program rest ih =>
      obtain ⟨strict, permissive, hcompare, -⟩ | ⟨long, ip, hcompare⟩ :=
        compare_cases program limit
      · have ran := ranWithin_of_compare hcompare
        obtain ⟨long, ip, hrest⟩ | ⟨tests, htests, hprograms, hran⟩ := ih
        · refine .inl ⟨long, ip, ?_⟩
          simp only [testAll, hcompare, hrest, bind, Except.bind]
        · refine .inr ⟨⟨program, _⟩ :: tests, ?_, by rw [List.map_cons, hprograms],
            List.forall_mem_cons.mpr ⟨ran, hran⟩⟩
          simp only [testAll, hcompare, htests, bind, Except.bind, pure, Except.pure]
      · refine .inl ⟨long, ip, ?_⟩
        simp only [testAll, hcompare, bind, Except.bind]

theorem Test.RanWithin.matched_iff (ran : t.RanWithin limit) :
    t.comparison.matched = true ↔ t.comparison.strict.Alike t.comparison.permissive := by
  rw [ran.compared]
  exact Outcome.agrees_iff

/-- The statistics of a campaign are counted from the outcomes of its tests. -/
theorem statistics_eq_tally (ran : ∀ t ∈ tests, t.RanWithin limit) :
    statistics tests = tally (tests.map Test.outcomes) := by
  rw [statistics, tally, List.map_map]
  congr 1
  exact List.map_congr_left fun t ht => (ran t ht).compared

def reported (tests : List Test) : List (Test × Nat) :=
  (tests.zipIdx 1).filter fun f => !f.1.comparison.matched

theorem mem_reported (ran : ∀ t ∈ tests, t.RanWithin limit) {k : Nat} :
    (t, k) ∈ reported tests ↔ 1 ≤ k ∧ tests[k - 1]? = some t ∧
      ¬ t.comparison.strict.Alike t.comparison.permissive := by
  rw [reported, List.mem_filter, List.mk_mem_zipIdx_iff_le_and_getElem?_sub, and_assoc]
  refine and_congr_right fun _ => and_congr_right fun ht => ?_
  rw [← (ran t (List.mem_of_getElem? ht)).matched_iff, Bool.not_eq_true', Bool.not_eq_true]

/-- The numbers of the reported tests go up. -/
theorem reported_sorted (tests : List Test) :
    (reported tests).Pairwise fun f g => f.2 < g.2 := by
  refine List.Pairwise.filter _ (List.pairwise_map.mp ?_)
  rw [List.zipIdx_map_snd]
  exact List.pairwise_lt_range'

theorem length_reported (tests : List Test) :
    ((reported tests).length : Int) = (statistics tests).divergences := by
  have hcount : (reported tests).length = tests.countP fun t => !t.comparison.matched := by
    conv_rhs => rw [← List.zipIdx_map_fst 1 tests]
    rw [reported, List.countP_map, List.countP_eq_length_filter]
    rfl
  rw [hcount, statistics, Statistics.recordAll_eq, List.countP_map]
  exact (Int.zero_add _).symm

/-! ### Texts -/

def shown : Outcome → String
  | .completed output => "Completed(output=" ++ Text.quotedBytes output ++ ")"
  | .failed reason => "Failed(reason=" ++ Text.quoted reason ++ ")"
  | .exhausted limit => "Exhausted(steps=" ++ toString limit ++ ")"
  | .none => "ExecutionResult()"

def reportOf (f : Test × Nat) : String :=
  "\nTest " ++ toString f.2 ++ ": Policies diverge\n" ++
    "  Program:    " ++ Text.hexOfBytes f.1.program ++ "\n" ++
    "    " ++ listing f.1.program ++ "\n" ++
    "  Strict:     " ++ shown f.1.comparison.strict ++ "\n" ++
    "  Permissive: " ++ shown f.1.comparison.permissive ++ "\n"

def opening (c : Campaign) : String :=
  "nibvm Policy Fuzzer - Running " ++ toString c.tests ++ " tests\n" ++
    "Generator: " ++ c.generator ++ "\n" ++
    "============================================================\n"

def closing (s : Statistics) : String :=
  "\n============================================================\n" ++
    "Fuzzer Summary\n" ++
    "----------------------------------------\n" ++
    "Total tests run:           " ++ toString s.total ++ "\n" ++
    "Agreements:                " ++ toString s.agreements ++ "\n" ++
    "Divergences:               " ++ toString s.divergences ++ "\n" ++
    "Strict-only failures:      " ++ toString s.strictOnlyFailures ++ "\n" ++
    "Step budget exhausted:     " ++ toString s.exhausted ++ "\n" ++
    if 0 < s.divergences then "Divergence rate:        " ++ s.rate.oneDecimal ++ "%\n"
    else "\nPolicies agreed on every program!\n"

/-- An outcome of a test run can be written, since a budget that cannot is none. -/
theorem display?_of_execute {program input : List UInt8} {strict : Bool} {size : Value}
    {o : Outcome} (h : execute program strict input size limit = .ok o) :
    o.display? = some (shown o) := by
  cases o with
  | exhausted l =>
      have writable : Decimal.isWritable l = true := writable_of_execute h
      simp only [Outcome.display?, Decimal.text?_eq_some writable, Option.map_some]
      rfl
  | _ => rfl

theorem toString_text (s : String) : toString s = s := rfl

theorem report?_eq {k : Nat} (writable : Decimal.isWritable k = true)
    (ran : t.RanWithin limit) :
    report? k t.program t.comparison.strict t.comparison.permissive = some (reportOf (t, k)) := by
  have hnumber : toString (k : Int) = toString k := rfl
  unfold report? reportOf
  rw [Decimal.text?_eq_some writable, display?_of_execute ran.strict,
    display?_of_execute ran.permissive, hnumber]
  simp only [Option.bind_eq_bind, Option.bind_some, Option.pure_def, toString_text]

theorem reports?_eq {number : Nat} (ran : ∀ t ∈ tests, t.RanWithin limit)
    (writable : ∀ k < number + tests.length, Decimal.isWritable k = true) :
    reports? number tests =
      some (((tests.zipIdx number).filter fun f => !f.1.comparison.matched).map reportOf) := by
  induction tests generalizing number with
  | nil => rfl
  | cons t rest ih =>
      obtain ⟨hran, others⟩ := List.forall_mem_cons.mp ran
      have hrest := @ih (number + 1) others
        fun k hk => writable k (by rw [List.length_cons]; omega)
      have hfirst := report?_eq (writable number (by rw [List.length_cons]; omega)) hran
      rw [reports?, hrest, hfirst, List.zipIdx_cons, List.filter_cons]
      cases t.comparison.matched <;> rfl

theorem header?_eq {c : Campaign} (writable : Decimal.isWritable c.tests = true) :
    header? c.tests c.generator = some (opening c) := by
  have line : String.ofList (List.replicate 60 '=') ++ "\n" =
      "============================================================\n" := by decide
  unfold header? opening
  rw [Decimal.text?_eq_some writable, ← line]
  simp only [Option.bind_eq_bind, Option.bind_some, Option.pure_def, toString_text,
    String.append_assoc]

theorem summary?_eq {s : Statistics} (total : Decimal.isWritable s.total = true)
    (agreements : Decimal.isWritable s.agreements = true)
    (divergences : Decimal.isWritable s.divergences = true)
    (failures : Decimal.isWritable s.strictOnlyFailures = true)
    (exhausted : Decimal.isWritable s.exhausted = true) : s.summary? = some (closing s) := by
  have line : ∀ (heading filled value : String),
      heading ++ String.ofList (List.replicate (27 - heading.length) ' ') = filled →
      Statistics.summaryLine heading value = filled ++ (value ++ "\n") := by
    rintro heading _ value rfl
    rw [← String.append_assoc]
    rfl
  have double : "\n" ++ (String.ofList (List.replicate 60 '=') ++ "\n") =
      "\n============================================================\n" := by decide
  have single : String.ofList (List.replicate 40 '-') ++ "\n" =
      "----------------------------------------\n" := by decide
  unfold Statistics.summary? closing
  rw [Decimal.text?_eq_some total, Decimal.text?_eq_some agreements,
    Decimal.text?_eq_some divergences, Decimal.text?_eq_some failures,
    Decimal.text?_eq_some exhausted, ← double, ← single]
  simp only [Option.bind_eq_bind, Option.bind_some, Option.pure_def]
  rw [line _ "Total tests run:           " _ (by decide),
    line _ "Agreements:                " _ (by decide),
    line _ "Divergences:               " _ (by decide),
    line _ "Strict-only failures:      " _ (by decide),
    line _ "Step budget exhausted:     " _ (by decide)]
  simp only [String.append_assoc]

/-- What is counted is no more than the number of tests, and can be written if that can. -/
theorem summary?_statistics (writable : ∀ k ≤ tests.length, Decimal.isWritable k = true) :
    (statistics tests).summary? = some (closing (statistics tests)) := by
  have within : ∀ n : Int, 0 ≤ n → n ≤ tests.length → Decimal.isWritable n = true := by
    intro n nonneg hn
    obtain ⟨k, rfl⟩ := Int.eq_ofNat_of_zero_le nonneg
    exact writable k (Int.ofNat_le.mp hn)
  have counted : ∀ p : Comparison → Bool,
      (tests.map (·.comparison)).countP p ≤ tests.length := by
    intro p
    have hle := List.countP_le_length (p := p) (l := tests.map (·.comparison))
    rwa [List.length_map] at hle
  rw [statistics, Statistics.recordAll_eq]
  have hdivergences := counted fun c => !c.matched
  have hfailures := counted fun c => c.strict.isFailed && c.permissive.isCompleted
  have hexhausted := counted fun c => c.strict.isExhausted || c.permissive.isExhausted
  apply summary?_eq <;> simp only [Statistics.agreements, List.length_map] <;>
    exact within _ (by omega) (by omega)

/-! ### Campaigns -/

variable {c : Campaign}

/-- The text of a campaign that has made its tests. -/
theorem conduct_of_run (hrun : c.run = .ok tests) (ran : ∀ t ∈ tests, t.RanWithin c.limit)
    (hlength : (tests.length : Int) = max c.tests 0) :
    c.conduct false = .ok (statistics tests, "") ∧
    (c.tests.natAbs < Nat.pow 10 Literal.maxDigits →
      c.conduct true = .ok (statistics tests,
        opening c ++ String.join ((reported tests).map reportOf) ++ closing (statistics tests))) ∧
    (Nat.pow 10 Literal.maxDigits ≤ c.tests.natAbs → c.conduct true = .error .unwritable) := by
  refine ⟨?_, ?_, ?_⟩
  · simp only [conduct, written, hrun]
    rfl
  · intro small
    have writable : ∀ k ≤ tests.length, Decimal.isWritable k = true := by
      intro k hk
      exact Decimal.isWritable_iff.mpr (Nat.lt_of_le_of_lt (by omega) small)
    have hopening : written true (header? c.tests c.generator) = .ok (opening c) := by
      rw [header?_eq (Decimal.isWritable_iff.mpr small)]
      rfl
    have hfound : written true ((reports? 1 tests).map String.join) =
        .ok (String.join ((reported tests).map reportOf)) := by
      rw [reports?_eq ran fun k hk => writable k (by omega)]
      rfl
    have hclosing : written true (statistics tests).summary? =
        .ok (closing (statistics tests)) := by
      rw [summary?_statistics writable]
      rfl
    simp only [conduct, hopening, hrun, hfound, hclosing, bind, Except.bind, pure, Except.pure]
  · intro long
    have hheader : header? c.tests c.generator = none := by
      rw [header?, Decimal.text?_eq_none (Decimal.isWritable_eq_false_iff.mpr long)]
      rfl
    simp only [conduct, written, hheader]
    rfl

theorem drawn_of_programs (hprograms : c.programs = .ok programs) :
    ∃ words, Draw.times (Generator.ofName c.generator).drawDefault c.tests.toNat c.words =
      .ok (programs, words) := by
  rw [Campaign.programs] at hprograms
  split at hprograms
  · cases hprograms
    exact ⟨_, ‹_›⟩
  · cases hprograms

theorem length_programs (hprograms : c.programs = .ok programs) :
    (programs.length : Int) = max c.tests 0 := by
  obtain ⟨words, hdrawn⟩ := drawn_of_programs hprograms
  have hlength := Draw.length_of_times hdrawn
  omega

/-- A campaign that has made its programs tests each of them, unless one of them uses up a budget
that cannot be written. -/
theorem run_cases (hprograms : c.programs = .ok programs) :
    (Nat.pow 10 Literal.maxDigits ≤ c.limit.natAbs ∧
      ∃ ip, c.run = .error (.run (.fault (.stepLimit ip c.limit)))) ∨
    ∃ tests, c.run = .ok tests ∧ tests.map (·.program) = programs ∧
      ∀ t ∈ tests, t.RanWithin c.limit := by
  obtain ⟨long, ip, htests⟩ | ⟨tests, htests, hmade, ran⟩ := testAll_cases c.limit programs
  · exact .inl ⟨long, ip, by simp only [run, hprograms, htests]⟩
  · exact .inr ⟨tests, by simp only [run, hprograms, htests], hmade, ran⟩

/-- Only words can be missing that programs are to be made from. -/
theorem outOfWords_of_programs {e : DrawError} (h : c.programs = .error e) : e = .outOfWords := by
  rw [Campaign.programs] at h
  split at h
  · cases h
  · cases h
    exact (Generator.failsDry_drawDefault _).times _ _ _ ‹_›

/-- From a seed the programs of every campaign can be made. -/
theorem exists_programs {seed : Int} (hseed : c.words = .ofSeed seed) :
    ∃ programs, c.programs = .ok programs := by
  obtain ⟨programs, words, hdrawn⟩ :=
    Generator.exists_programs (.ofName c.generator) c.tests.toNat seed
  exact ⟨programs, by rw [Campaign.programs, hseed, hdrawn]⟩

/-- Counted from zero, every pair of outcomes is a test and each that is not alike a divergence,
so that agreements and divergences make up the total. A program that fails under the strict policy
only is among the divergences, and among those whose budget was not used up. The order of the
pairs does not matter. From a seed a campaign makes as many programs as it was asked for, and so
it does from any words that are enough. It tests each of them, and its statistics are counted from
their outcomes. Its text reports each divergence once, by the number of the test, in the order of
the numbers. A number with more than 4300 digits breaks a campaign off: a budget, when it is used
up, and a number of tests, when it is to be written. -/
theorem statistics_classify_outcomes (pairs : List (Outcome × Outcome)) (c : Campaign) :
    let s := tally pairs
    (s.total = pairs.length ∧
      s.divergences = pairs.countP (fun p => ¬ p.1.Alike p.2) ∧
      s.strictOnlyFailures = pairs.countP failsStrictOnly ∧
      s.exhausted = pairs.countP exhausts) ∧
    s.agreements + s.divergences = s.total ∧
    s.strictOnlyFailures ≤ s.divergences ∧
    s.strictOnlyFailures + s.exhausted ≤ s.total ∧
    (∀ others, others.Perm pairs → tally others = s) ∧
    (∀ seed, c.words = .ofSeed seed → ∃ programs, c.programs = .ok programs) ∧
    (∀ e, c.programs = .error e → e = .outOfWords) ∧
    ∀ programs, c.programs = .ok programs →
      (programs.length : Int) = max c.tests 0 ∧
      ((Nat.pow 10 Literal.maxDigits ≤ c.limit.natAbs ∧ ∃ ip,
          c.conduct false = .error (.run (.fault (.stepLimit ip c.limit)))) ∨
        ∃ tests, tests.map (·.program) = programs ∧ (∀ t ∈ tests, t.RanWithin c.limit) ∧
          statistics tests = tally (tests.map Test.outcomes) ∧
          c.conduct false = .ok (statistics tests, "") ∧
          (Nat.pow 10 Literal.maxDigits ≤ c.tests.natAbs → c.conduct true = .error .unwritable) ∧
          ∃ found : List (Test × Nat),
            (c.tests.natAbs < Nat.pow 10 Literal.maxDigits →
              c.conduct true = .ok (statistics tests,
                opening c ++ String.join (found.map reportOf) ++ closing (statistics tests))) ∧
            (found.length : Int) = (statistics tests).divergences ∧
            found.Pairwise (fun f g => f.2 < g.2) ∧
            ∀ t k, (t, k) ∈ found ↔ 1 ≤ k ∧ tests[k - 1]? = some t ∧
              ¬ t.comparison.strict.Alike t.comparison.permissive) := by
  intro s
  have counted : s.total = pairs.length ∧
      s.divergences = pairs.countP (fun p => ¬ p.1.Alike p.2) ∧
      s.strictOnlyFailures = pairs.countP failsStrictOnly ∧
      s.exhausted = pairs.countP exhausts := by
    have hs : s = _ := tally_eq pairs
    rw [hs]
    exact ⟨rfl, rfl, rfl, rfl⟩
  have ⟨htotal, hdivergences, hfailures, hexhausted⟩ := counted
  refine ⟨counted, Int.sub_add_cancel _ _, ?_, ?_, fun others perm => tally_eq_of_perm perm,
    fun seed hseed => exists_programs hseed, fun e he => outOfWords_of_programs he, ?_⟩
  · rw [hfailures, hdivergences]
    exact_mod_cast strictOnlyFailures_le pairs
  · rw [hfailures, hexhausted, htotal]
    exact_mod_cast strictOnlyFailures_add_exhausted_le pairs
  · intro programs hprograms
    have hlength := length_programs hprograms
    refine ⟨hlength, ?_⟩
    obtain ⟨long, ip, hrun⟩ | ⟨tests, hrun, rfl, ran⟩ := run_cases hprograms
    · refine .inl ⟨long, ip, ?_⟩
      simp only [conduct, written, hrun]
      rfl
    · rw [List.length_map] at hlength
      obtain ⟨quiet, verbose, unwritable⟩ := conduct_of_run hrun ran hlength
      exact .inr ⟨tests, rfl, ran, statistics_eq_tally ran, quiet, unwritable, reported tests,
        verbose, length_reported tests, reported_sorted tests, fun t k => mem_reported ran⟩

/-- Six pairs, half of them divergences, are counted alike from either end. A campaign of two
tests, whose programs are `+.` and `<+..`, reports the second of them. From the seed 7 three
programs are made. -/
theorem statistics_classify_six_pairs :
    let pairs : List (Outcome × Outcome) :=
      [(.failed "DataIndexOutOfBounds", .completed []), (.completed [120], .completed [120]),
        (.exhausted 5, .exhausted 7), (.failed "UnterminatedLoop", .failed "UnterminatedLoop"),
        (.completed [1], .completed [2]), (.exhausted 5, .failed "UnexpectedLoopEnd")]
    let listed : Campaign :=
      { tests := 2, generator := "random",
        words := .listed [0, 0x10000000, 0x8000000, 0x31000000, 0] }
    let seeded : Campaign := { tests := 3, words := .ofSeed 7 }
    pairs.reverse.Perm pairs ∧ tally pairs.reverse = tally pairs ∧
    tally pairs = { total := 6, divergences := 3, strictOnlyFailures := 1, exhausted := 2 } ∧
    (∃ tests, tests.map (·.program) = [[0x20], [0x62, 0x00]] ∧
      (∀ t ∈ tests, t.RanWithin 10000) ∧ (statistics tests).divergences = 1) ∧
    (listed.conduct true).toOption.map Prod.snd = some (
      "nibvm Policy Fuzzer - Running 2 tests\n" ++
      "Generator: random\n" ++
      "============================================================\n" ++
      "\nTest 2: Policies diverge\n" ++
      "  Program:    6200\n" ++
      "    ['DECR_PTR', 'INCR_VAL', 'WRITE', 'WRITE']\n" ++
      "  Strict:     Failed(reason='DataIndexOutOfBounds')\n" ++
      "  Permissive: Completed(output=b'\\x01\\x01')\n" ++
      "\n============================================================\n" ++
      "Fuzzer Summary\n" ++
      "----------------------------------------\n" ++
      "Total tests run:           2\n" ++
      "Agreements:                1\n" ++
      "Divergences:               1\n" ++
      "Strict-only failures:      1\n" ++
      "Step budget exhausted:     0\n" ++
      "Divergence rate:        50.0%\n") ∧
    ∃ programs, seeded.programs = .ok programs ∧ programs.length = 3 := by
  intro pairs listed seeded
  obtain ⟨-, -, -, -, reordered, -, -, tested⟩ := statistics_classify_outcomes pairs listed
  have hprograms : listed.programs = .ok [[0x20], [0x62, 0x00]] := rfl
  obtain ⟨-, ⟨long, -⟩ | ⟨tests, hmade, ran, -, quiet, -⟩⟩ := tested _ hprograms
  · have short : listed.limit.natAbs < Nat.pow 10 Literal.maxDigits :=
      Nat.lt_of_lt_of_le (by decide) Decimal.billion_le
    exact (Nat.not_le.mpr short long).elim
  obtain ⟨-, -, -, -, -, made, -, tested'⟩ := statistics_classify_outcomes [] seeded
  obtain ⟨programs, hseeded⟩ := made 7 rfl
  have hlength : (programs.length : Int) = 3 := (tested' programs hseeded).1
  have hcounted : (statistics tests).divergences = 1 := by
    have found : (listed.conduct false).toOption.map (·.1.divergences) = some 1 := by
      decide +kernel
    rw [quiet] at found
    exact Option.some.inj found
  exact ⟨pairs.reverse_perm, reordered _ pairs.reverse_perm, by decide,
    ⟨tests, hmade, ran, hcounted⟩, by decide +kernel, programs, hseeded, by exact_mod_cast hlength⟩

/-- A used up budget that cannot be written breaks a campaign off at its first test. -/
theorem run_of_negative {program : List UInt8} {rest : List (List UInt8)}
    (hprograms : c.programs = .ok (program :: rest)) (nonempty : program ≠ [])
    (negative : c.limit ≤ 0) (long : Nat.pow 10 Literal.maxDigits ≤ c.limit.natAbs) :
    c.run = .error (.run (.fault (.stepLimit 0 c.limit))) := by
  have valid : StepSize.ofInt standardStepSize = .ok standardStepSize := rfl
  have hcompare : compare program c.limit = .error (.fault (.stepLimit 0 c.limit)) := by
    simp only [compare, execute_of_negative valid nonempty negative long]
    rfl
  simp only [run, hprograms, testAll, hcompare]
  rfl

/-- With a budget of minus a one with 4300 zeros, a campaign of one test has no statistics. -/
theorem unwritable_budget_has_no_statistics :
    let c : Campaign :=
      { tests := 1, words := .ofSeed 7, limit := -(Nat.pow 10 Literal.maxDigits : Int) }
    c.conduct false = .error (.run (.fault (.stepLimit 0 c.limit))) := by
  obtain ⟨long, negative⟩ := Decimal.neg_pow_too_long
  generalize -(Nat.pow 10 Literal.maxDigits : Int) = limit at long negative
  intro c
  obtain ⟨programs, hprograms⟩ := exists_programs (c := c) rfl
  obtain ⟨words, hdrawn⟩ := drawn_of_programs hprograms
  have nonempty := Draw.forall_of_times Generator.ne_nil_of_drawDefault hdrawn
  obtain ⟨program, rfl⟩ := List.length_eq_one_iff.mp (Draw.length_of_times hdrawn)
  have hrun := run_of_negative hprograms (nonempty program List.mem_cons_self) negative long
  simp only [conduct, written, hrun]
  rfl

end Campaign

end NibTape.Fuzz

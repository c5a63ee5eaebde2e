import NibTape.Proofs.Lockstep

/-!
# Step budgets

A budget counts all steps since the start, so what it leaves to a run is the part that was not
used up before. With a budget the machine stops exactly there, unless it has come to its end or
to a fault on the way; and from there it goes on, in a later run, as if it had not been stopped.

Runs with different budgets are therefore parts of one execution. A run that ends in another way
than by its budget ends in the same way with every larger one, and without any.
-/

namespace NibTape

namespace Fault

variable {limit : Int}

theorem stepLimit_of_writable (short : limit.natAbs < Nat.pow 10 Literal.maxDigits) (ip : Nat) :
    (stepLimit ip limit).kind? = some "StepLimitExceeded" ∧
      (stepLimit ip limit).message =
        s!"Step limit of {limit} exceeded at input index '{ip}'" := by
  have writable := Decimal.isWritable_iff.mpr short
  refine ⟨if_pos writable, ?_⟩
  rw [message, message?, Decimal.text?_eq_some writable]
  rfl

/-- That a budget is used up cannot be told if the budget cannot be written. -/
theorem stepLimit_of_too_long (long : Nat.pow 10 Literal.maxDigits ≤ limit.natAbs) (ip : Nat) :
    (stepLimit ip limit).kind? = none ∧
      (stepLimit ip limit).message =
        "Exceeds the limit (4300 digits) for integer string conversion; " ++
          "use sys.set_int_max_str_digits() to increase the limit" := by
  have unwritable := Decimal.isWritable_eq_false_iff.mpr long
  constructor
  · rw [kind?, unwritable]
    rfl
  · rw [message, message?, Decimal.text?_eq_none unwritable, ← Decimal.tooLong_eq]
    rfl

end Fault

/-- Two states that differ at most in the moments at which output was passed on. -/
def State.SameButFlushes (s u : State) : Prop := s.Beside [] u ∧ s.unread = u.unread

namespace Machine

variable {m : Machine} {s t u v : State} {k : Nat} {limit : Int} {more : Option Int}
variable {r : Except Halt State}

/-- An ending that a budget did not bring about is the same with more of it. -/
theorem Verdict.mono (verdict : m.Verdict (some limit) s r)
    (ended : ∀ ip t, r ≠ .error ⟨.stepLimit ip limit, t⟩)
    (larger : ∀ l, more = some l → limit ≤ l) : m.Verdict more s r := by
  cases verdict with
  | completed k u hp hend within =>
      refine .completed k u hp hend ?_
      intro l hl
      have := within limit rfl
      have := larger l hl
      omega
  | failed k u f hp hu fails within =>
      refine .failed k u f hp hu fails ?_
      intro l hl
      exact Int.lt_of_lt_of_le (within limit rfl) (larger l hl)
  | exhausted k u l hp hu hlimit spent =>
      cases hlimit
      exact (ended _ _ rfl).elim

/-- A run ends as one that starts at a state which it passes, within its budget. -/
theorem verdict_along (valid : m.Valid s) (hp : m.Path s k u)
    (within : ∀ l, more = some l → (u.steps : Int) ≤ max (s.steps : Int) l) :
    m.Verdict more s r ↔ m.Verdict more u r := by
  have hu := hp.steps valid
  constructor
  · intro verdict
    cases verdict with
    | completed n v hq hend reach =>
        have hk := hq.le_of_fault (step_of_finished hend) hp
        refine .completed (n - k) v (hp.drop hq hk) hend ?_
        intro l hl
        have := reach l hl
        omega
    | failed n v f hq hv fails reach =>
        have hk := hq.le_of_fault (step_of_fails fails) hp
        exact .failed (n - k) v f (hp.drop hq hk) hv fails reach
    | exhausted n v l hq hv hl spent =>
        have := within l hl
        have hn := hq.steps valid
        exact .exhausted (n - k) v l (hp.drop hq (by omega)) hv hl (by omega)
  · intro verdict
    cases verdict with
    | completed n v hq hend reach =>
        refine .completed (k + n) v (hp.append hq) hend ?_
        intro l hl
        have := reach l hl
        have := within l hl
        omega
    | failed n v f hq hv fails reach => exact .failed (k + n) v f (hp.append hq) hv fails reach
    | exhausted n v l hq hv hl spent =>
        have := within l hl
        exact .exhausted (k + n) v l (hp.append hq) hv hl (by omega)

/-- That output was passed on in between does not change how a run ends. -/
theorem run?_emit_flushed (valid : m.Valid u) (fuel : Nat) (more : Option Int) :
    Option.Rel (EndAlike State.SameButFlushes Eq)
      (m.run? fuel more u) (m.run? fuel more (u.emit .flushed)) := by
  have beside : u.Beside [] (u.emit .flushed) := ⟨rfl, rfl, rfl, rfl, by simp⟩
  have same : (m.proceed (allowance fuel more u) u).Alike State.SameButFlushes Eq
      (m.proceed (allowance fuel more u) (u.emit .flushed)) := by
    apply (proceed_beside valid beside (allowance fuel more u) fun _ _ => rfl).2.imp
    rintro t v ⟨after, hunread, hunread'⟩
    exact ⟨after, hunread.trans hunread'.symm⟩
  apply run?_alike beside.steps same
  · rintro t v ⟨after, hunread⟩
    exact ⟨flush_beside after, hunread⟩
  · rintro t v l ⟨after, -⟩
    rw [after.ip]

/-- Where a run was stopped, a later run goes on: it ends as one that was not stopped. -/
theorem ends_resumed (valid : m.Valid s) (hp : m.Path s k u)
    (within : ∀ l, more = some l → (u.steps : Int) ≤ max (s.steps : Int) l) :
    (∀ r, m.Ends more s r → ∃ r', m.Ends more (u.emit .flushed) r' ∧
      EndAlike State.SameButFlushes Eq r r') ∧
    ∀ r', m.Ends more (u.emit .flushed) r' → ∃ r, m.Ends more s r ∧
      EndAlike State.SameButFlushes Eq r r' := by
  have hvalid := hp.valid valid
  have here : ∀ r, m.Ends more s r ↔ m.Ends more u r := by
    intro r
    rw [ends_iff_verdict valid, ends_iff_verdict hvalid, verdict_along valid hp within]
  constructor
  · intro r hends
    obtain ⟨fuel, hrun⟩ := (here r).mp hends
    obtain ⟨r', hrun', same⟩ := (exists_of_rel (run?_emit_flushed hvalid fuel more)).1 r hrun
    exact ⟨r', ⟨fuel, hrun'⟩, same⟩
  · rintro r' ⟨fuel, hrun'⟩
    obtain ⟨r, hrun, same⟩ := (exists_of_rel (run?_emit_flushed hvalid fuel more)).2 r' hrun'
    exact ⟨r, (here r).mpr ⟨fuel, hrun⟩, same⟩

theorem ends_exhausted_iff (valid : m.Valid s) {ip : Nat} {l : Int} :
    m.Ends (some limit) s (.error ⟨.stepLimit ip l, t⟩) ↔
      l = limit ∧ ∃ k u, m.Path s k u ∧ (k : Int) = max (s.steps : Int) limit - s.steps ∧
        (u.steps : Int) = max (s.steps : Int) limit ∧ m.finished u = false ∧ ip = u.ip ∧
        t = u.emit .flushed := by
  rw [ends_iff_verdict valid]
  constructor
  · intro verdict
    generalize hr : Except.error (⟨.stepLimit ip l, t⟩ : Halt) = r at verdict
    cases verdict with
    | completed => cases hr
    | failed k u f hp hu fails within =>
        cases hr
        cases fails
    | exhausted k u l' hp hu hlimit spent =>
        cases hr
        cases hlimit
        have hsteps := hp.steps valid
        exact ⟨rfl, k, u, hp, by omega, spent, hu, rfl, rfl⟩
  · rintro ⟨rfl, k, u, hp, -, spent, hu, rfl, rfl⟩
    exact .exhausted k u l hp hu rfl spent

theorem ends_completed_iff (valid : m.Valid s) :
    m.Ends (some limit) s (.ok t) ↔
      ∃ k u, m.Path s k u ∧ (u.steps : Int) ≤ max (s.steps : Int) limit ∧
        m.finished u = true ∧ t = u.emit .flushed := by
  rw [ends_iff_verdict valid]
  constructor
  · intro verdict
    cases verdict with
    | completed k u hp hend within => exact ⟨k, u, hp, within limit rfl, hend, rfl⟩
  · rintro ⟨k, u, hp, reach, hend, rfl⟩
    refine .completed k u hp hend ?_
    intro l hl
    cases hl
    exact reach

/-- A machine at the end of its program is there already, whatever the budget. -/
theorem ends_of_finished (hend : m.finished s = true) :
    m.Ends more s r ↔ r = .ok (s.emit .flushed) := by
  have hrun : ∀ fuel, m.run? fuel more s = some (.ok (s.emit .flushed)) := by
    intro fuel
    rw [run?_eq_conclude, proceed_finished hend]
    rfl
  constructor
  · rintro ⟨fuel, hr⟩
    rw [hrun, Option.some.injEq] at hr
    exact hr.symm
  · rintro rfl
    exact ⟨0, hrun 0⟩

/-- In every state that steps, runs and their failures lead to, a run uses up its budget
exactly if the machine, going on step by step, is still running when it has made as many steps
as the budget allows, or has made too many already; and then it has made just these. A program
that comes to its end by then completes. What a run comes to in another way than by its budget,
it comes to with every larger budget and without any, and nothing else. A run that was stopped
by its budget can be resumed with a larger one, or without any, and the second run ends as one
from the first state would have ended, if it ends. A machine at the end of its program stays
there. That a budget is used up is told under that name, with the budget and the position,
unless the budget has more than 4300 digits; then only the number of digits is told. -/
theorem budgets_are_exact {size : Int} {cells : Nat} (valid : StepSize.ofInt size = .ok cells)
    (m : Machine) (input : List UInt8) (s : State)
    (reachable : m.Reachable (State.initial cells input) s) (limit : Int) :
    (∀ ip l t, m.Ends (some limit) s (.error ⟨.stepLimit ip l, t⟩) ↔
      l = limit ∧ ∃ k u, m.Path s k u ∧ (k : Int) = max (s.steps : Int) limit - s.steps ∧
        (u.steps : Int) = max (s.steps : Int) limit ∧ m.finished u = false ∧ ip = u.ip ∧
        t = u.emit .flushed) ∧
    (∀ t, m.Ends (some limit) s (.ok t) ↔
      ∃ k u, m.Path s k u ∧ (u.steps : Int) ≤ max (s.steps : Int) limit ∧
        m.finished u = true ∧ t = u.emit .flushed) ∧
    (∀ more : Option Int, (∀ l, more = some l → limit ≤ l) →
      (∀ r, m.Ends (some limit) s r → (∀ ip t, r ≠ .error ⟨.stepLimit ip limit, t⟩) →
        ∀ r', m.Ends more s r' ↔ r' = r) ∧
      ∀ ip t, m.Ends (some limit) s (.error ⟨.stepLimit ip limit, t⟩) →
        (∀ r, m.Ends more s r → ∃ r', m.Ends more t r' ∧
          EndAlike State.SameButFlushes Eq r r') ∧
        ∀ r', m.Ends more t r' → ∃ r, m.Ends more s r ∧
          EndAlike State.SameButFlushes Eq r r') ∧
    (m.finished s = true → ∀ more r, m.Ends more s r ↔ r = .ok (s.emit .flushed)) ∧
    (∀ more t, m.Ends more s (.ok t) → m.finished t = true) ∧
    ∀ ip,
      (limit.natAbs < Nat.pow 10 Literal.maxDigits →
        (Fault.stepLimit ip limit).kind? = some "StepLimitExceeded" ∧
        (Fault.stepLimit ip limit).message =
          s!"Step limit of {limit} exceeded at input index '{ip}'") ∧
      (Nat.pow 10 Literal.maxDigits ≤ limit.natAbs →
        (Fault.stepLimit ip limit).kind? = none ∧
        (Fault.stepLimit ip limit).message =
          "Exceeds the limit (4300 digits) for integer string conversion; " ++
            "use sys.set_int_max_str_digits() to increase the limit") := by
  have pos : 0 < cells := (StepSize.ofInt_eq_ok_iff.mp valid).2.1
  have hs : m.Valid s := reachable.valid (valid_initial m pos input)
  refine ⟨fun ip l t => ends_exhausted_iff hs, fun t => ends_completed_iff hs, ?_, ?_, ?_, ?_⟩
  · intro more larger
    constructor
    · intro r hends ended
      have same : m.Ends more s r := by
        rw [ends_iff_verdict hs] at hends ⊢
        exact hends.mono ended larger
      intro r'
      constructor
      · intro hends'
        exact hends'.unique same
      · rintro rfl
        exact same
    · intro ip t hends
      obtain ⟨-, k, u, hp, -, spent, -, -, rfl⟩ := (ends_exhausted_iff hs).mp hends
      apply ends_resumed hs hp
      intro l hl
      have := larger l hl
      omega
  · intro hend more r
    exact ends_of_finished hend
  · intro more t hends
    exact finished_of_ends hs hends
  · intro ip
    exact ⟨fun short => Fault.stepLimit_of_writable short ip,
      fun long => Fault.stepLimit_of_too_long long ip⟩

/-- The program `++[-]` needs nine steps. Stopped after five of them and resumed with a budget
of nine, it completes exactly at its limit, as it does in one run. -/
theorem resumed_run_completes_at_its_limit :
    let m : Machine := { program := #[2, 2, 4, 5, 1], policy := .strict, eof := .zero }
    let start := State.initial 1 []
    ∃ t s u, m.Ends (some 5) start (.error ⟨.stepLimit 2 5, t⟩) ∧ t.steps = 5 ∧
      m.Ends (some 9) start (.ok s) ∧ s.steps = 9 ∧ m.Ends (some 9) t (.ok u) ∧
      s.SameButFlushes u := by
  intro m start
  have valid : StepSize.ofInt 1 = .ok 1 := rfl
  obtain ⟨-, -, larger, -, -, -⟩ := budgets_are_exact valid m [] start .fresh 5
  obtain ⟨t, hstopped, hsteps⟩ : ∃ t,
      m.run? 0 (some 5) start = some (.error ⟨.stepLimit 2 5, t⟩) ∧ t.steps = 5 :=
    ⟨_, rfl, rfl⟩
  obtain ⟨s, hrun, hsteps'⟩ : ∃ s, m.run? 0 (some 9) (State.initial 1 []) = some (.ok s) ∧
      s.steps = 9 := ⟨_, rfl, rfl⟩
  have enough : ∀ l, some (9 : Int) = some l → 5 ≤ l := by
    rintro l ⟨⟩
    decide
  obtain ⟨resumes, -⟩ := (larger (some 9) enough).2 2 t ⟨0, hstopped⟩
  obtain ⟨r, hends, alike⟩ := resumes (.ok s) ⟨0, hrun⟩
  cases alike with
  | completed same => exact ⟨t, s, _, ⟨0, hstopped⟩, hsteps, ⟨0, hrun⟩, hsteps', hends, same⟩

/-- With a budget of minus a one with 4300 zeros, a run of a program of one instruction stops
before its first step, but that is not told under the name of a used up budget. -/
theorem unwritable_budget_is_not_told :
    let m : Machine := { program := #[2], policy := .strict, eof := .zero }
    ∃ h, m.Ends (some (-(Nat.pow 10 Literal.maxDigits : Int))) (State.initial 1 []) (.error h) ∧
      h.fault = .stepLimit 0 (-(Nat.pow 10 Literal.maxDigits : Int)) ∧ h.fault.kind? = none ∧
      h.fault.message = "Exceeds the limit (4300 digits) for integer string conversion; " ++
        "use sys.set_int_max_str_digits() to increase the limit" := by
  intro m
  obtain ⟨long, negative⟩ := Decimal.neg_pow_too_long
  generalize -(Nat.pow 10 Literal.maxDigits : Int) = limit at long negative
  have valid : m.Valid (State.initial 1 []) := valid_initial m (by decide) []
  have hsteps : (State.initial 1 []).steps = 0 := rfl
  have stops : m.Ends (some limit) (State.initial 1 []) (.error ⟨.stepLimit 0 limit, _⟩) :=
    (ends_exhausted_iff valid).mpr
      ⟨rfl, 0, State.initial 1 [], .start, by omega, by omega, rfl, rfl, rfl⟩
  exact ⟨_, stops, rfl, Fault.stepLimit_of_too_long long 0⟩

end Machine

end NibTape

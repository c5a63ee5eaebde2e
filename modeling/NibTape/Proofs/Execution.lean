import NibTape.Machine.Run
import NibTape.Proofs.Step

/-!
# Executions counted by steps

`m.Path s n t` means that exactly `n` instructions, none of them faulting, take state `s`
to state `t`. The runner that stops at the end of the program, at a fault or after a number
of steps is described by this relation, and so is every run with or without a budget.

A step is a function, so an execution has no branches, and what a single step keeps is kept
by every execution.
-/

namespace NibTape.Machine

/-- Exactly `n` instructions, executed without a fault, take `s` to the last state. -/
inductive Path (m : Machine) (s : State) : Nat → State → Prop where
  | start : Path m s 0 s
  | next {n u t} : Path m s n u → m.step u = .ok t → Path m s (n + 1) t

variable {m : Machine} {n k : Nat} {s t u : State} {h : Halt}

namespace Path

theorem single (h : m.step s = .ok t) : m.Path s 1 t := .next .start h

/-- Executions compose, and their numbers of steps add. -/
theorem append (first : m.Path s n u) (rest : m.Path u k t) : m.Path s (n + k) t := by
  induction rest with
  | start => exact first
  | next _ hstep ih => exact ih.next hstep

theorem cons (hstep : m.step s = .ok u) (rest : m.Path u n t) : m.Path s (n + 1) t := by
  rw [Nat.add_comm]
  exact (single hstep).append rest

@[simp] theorem zero_iff : m.Path s 0 t ↔ t = s := by
  constructor
  · intro h
    cases h
    rfl
  · rintro rfl
    exact .start

theorem succ_iff : m.Path s (n + 1) t ↔ ∃ u, m.Path s n u ∧ m.step u = .ok t := by
  constructor
  · intro h
    cases h with
    | next before hstep => exact ⟨_, before, hstep⟩
  · rintro ⟨u, before, hstep⟩
    exact before.next hstep

/-- The state after a number of steps is determined by the first. -/
theorem unique (ht : m.Path s n t) (hu : m.Path s n u) : t = u := by
  induction ht generalizing u with
  | start => exact (zero_iff.mp hu).symm
  | next _ hstep ih =>
      obtain ⟨v, before, hv⟩ := succ_iff.mp hu
      rw [ih before, hv] at hstep
      exact (Except.ok.inj hstep).symm

/-- An execution that takes a step begins with the step from its first state. -/
theorem uncons (hp : m.Path s (n + 1) t) : ∃ u, m.step s = .ok u ∧ m.Path u n t := by
  induction n generalizing t with
  | zero =>
      obtain ⟨u, before, hstep⟩ := succ_iff.mp hp
      rw [zero_iff.mp before] at hstep
      exact ⟨t, hstep, .start⟩
  | succ n ih =>
      obtain ⟨v, before, hstep⟩ := succ_iff.mp hp
      obtain ⟨u, hfirst, rest⟩ := ih before
      exact ⟨u, hfirst, rest.next hstep⟩

/-- Of two executions from one state, the shorter is a beginning of the longer. -/
theorem drop (short : m.Path s k u) (long : m.Path s n t) (hle : k ≤ n) :
    m.Path u (n - k) t := by
  induction short generalizing n with
  | start => exact long
  | @next k v u before hstep ih =>
      have hlong := ih long (by omega)
      have hcount : n - k = n - (k + 1) + 1 := by omega
      rw [hcount] at hlong
      obtain ⟨w, hw, rest⟩ := hlong.uncons
      rw [hstep] at hw
      rw [Except.ok.inj hw]
      exact rest

/-- From a state whose next instruction fails there is no way on. -/
theorem eq_of_fault (hp : m.Path s n t) (hfault : m.step s = .error h) : n = 0 ∧ t = s := by
  cases n with
  | zero => exact ⟨rfl, zero_iff.mp hp⟩
  | succ n =>
      obtain ⟨u, hu, -⟩ := hp.uncons
      rw [hfault] at hu
      cases hu

/-- No execution outlasts one that comes to a fault. -/
theorem le_of_fault (hp : m.Path s n t) (hfault : m.step t = .error h) (hq : m.Path s k u) :
    k ≤ n := by
  apply Nat.le_of_not_lt
  intro hlt
  have hzero := ((hp.drop hq (Nat.le_of_lt hlt)).eq_of_fault hfault).1
  omega

/-- There is one state at most in which an execution comes to a fault. -/
theorem fault_unique {g : Halt} (hp : m.Path s n t) (ht : m.step t = .error h)
    (hq : m.Path s k u) (hu : m.step u = .error g) : t = u := by
  have hnk : n = k := Nat.le_antisymm (hq.le_of_fault hu hp) (hp.le_of_fault ht hq)
  subst hnk
  exact hp.unique hq

/-- What every step keeps, an execution keeps. -/
theorem keeps {P : State → Prop} (keep : ∀ s t, P s → m.step s = .ok t → P t)
    (hp : m.Path s n t) (hs : P s) : P t := by
  induction hp with
  | start => exact hs
  | next _ hstep ih => exact keep _ _ ih hstep

end Path

/-- A runner goes on from any state that the execution passes. -/
theorem proceed_add (hp : m.Path s k t) (n : Nat) : m.proceed (k + n) s = m.proceed n t := by
  induction hp generalizing n with
  | start => rw [Nat.zero_add]
  | @next k u t _ hstep ih =>
      have hcount : k + 1 + n = k + (n + 1) := by omega
      rw [hcount, ih, proceed_succ (unfinished_of_step hstep), hstep]

/-- What a runner that may make `n` steps comes to: it is cut off after all of them, or comes
to the end of the program or to a fault before. -/
def Reaches (m : Machine) (s : State) (n : Nat) : Progress → Prop
  | .running t => m.Path s n t ∧ m.finished t = false
  | .finished t => ∃ k ≤ n, m.Path s k t ∧ m.finished t = true
  | .faulted h => ∃ k < n, ∃ t, m.Path s k t ∧ m.finished t = false ∧ m.step t = .error h

theorem Reaches.cons {r : Progress} (hstep : m.step s = .ok u) (h : m.Reaches u n r) :
    m.Reaches s (n + 1) r := by
  cases r with
  | running t => exact ⟨h.1.cons hstep, h.2⟩
  | finished t =>
      obtain ⟨k, hk, hp, hend⟩ := h
      exact ⟨k + 1, Nat.succ_le_succ hk, hp.cons hstep, hend⟩
  | faulted g =>
      obtain ⟨k, hk, t, hp, ht, hf⟩ := h
      exact ⟨k + 1, Nat.succ_lt_succ hk, t, hp.cons hstep, ht, hf⟩

theorem reaches_proceed (m : Machine) (n : Nat) (s : State) :
    m.Reaches s n (m.proceed n s) := by
  induction n generalizing s with
  | zero =>
      unfold proceed
      split
      · rename_i hend
        exact ⟨0, Nat.le_refl 0, .start, hend⟩
      · rename_i hend
        exact ⟨.start, by simpa using hend⟩
  | succ n ih =>
      cases hend : m.finished s with
      | true =>
          rw [proceed_finished hend]
          exact ⟨0, Nat.zero_le _, .start, hend⟩
      | false =>
          rw [proceed_succ hend]
          cases hstep : m.step s with
          | error h => exact ⟨0, Nat.succ_pos n, s, .start, hend, hstep⟩
          | ok u => exact (ih u).cons hstep

theorem proceed_of_reaches {r : Progress} (h : m.Reaches s n r) : m.proceed n s = r := by
  cases r with
  | running t =>
      obtain ⟨hp, ht⟩ := h
      rw [← Nat.add_zero n, proceed_add hp]
      simp [proceed, ht]
  | finished t =>
      obtain ⟨k, hk, hp, ht⟩ := h
      have hcount : n = k + (n - k) := by omega
      rw [hcount, proceed_add hp, proceed_finished ht]
  | faulted g =>
      obtain ⟨k, hk, t, hp, ht, hf⟩ := h
      have hcount : n = k + (n - k - 1 + 1) := by omega
      rw [hcount, proceed_add hp, proceed_succ ht, hf]

/-- The runner computes what executions of the machine say. -/
theorem proceed_eq_iff {r : Progress} : m.proceed n s = r ↔ m.Reaches s n r := by
  constructor
  · rintro rfl
    exact reaches_proceed m n s
  · exact proceed_of_reaches

theorem proceed_eq_finished_iff :
    m.proceed n s = .finished t ↔ ∃ k ≤ n, m.Path s k t ∧ m.finished t = true :=
  proceed_eq_iff

theorem proceed_eq_faulted_iff :
    m.proceed n s = .faulted h ↔
      ∃ k < n, ∃ t, m.Path s k t ∧ m.finished t = false ∧ m.step t = .error h :=
  proceed_eq_iff

/-- A run without a budget completes in a state that is at the end of the program. -/
theorem runToEnd?_eq_ok_iff :
    (∃ fuel, m.runToEnd? fuel s = some (.ok t)) ↔
      ∃ n u, m.Path s n u ∧ m.finished u = true ∧ t = u.emit .flushed := by
  constructor
  · rintro ⟨fuel, hrun⟩
    unfold runToEnd? at hrun
    split at hrun
    · rename_i u hu
      obtain ⟨k, -, hp, hend⟩ := proceed_eq_finished_iff.mp hu
      exact ⟨k, u, hp, hend, by simpa [settle] using hrun.symm⟩
    · simp [settle] at hrun
    · cases hrun
  · rintro ⟨n, u, hp, hend, rfl⟩
    have hrun := proceed_eq_finished_iff.mpr ⟨n, Nat.le_refl n, hp, hend⟩
    exact ⟨n, by simp [runToEnd?, hrun, settle]⟩

/-- A run without a budget faults where the next instruction does. -/
theorem runToEnd?_eq_error_iff :
    (∃ fuel, m.runToEnd? fuel s = some (.error h)) ↔
      ∃ n u g, m.Path s n u ∧ m.finished u = false ∧ m.step u = .error g ∧
        h = { g with state := g.state.emit .flushed } := by
  constructor
  · rintro ⟨fuel, hrun⟩
    unfold runToEnd? at hrun
    split at hrun
    · simp [settle] at hrun
    · rename_i g hg
      obtain ⟨k, -, u, hp, hu, hf⟩ := proceed_eq_faulted_iff.mp hg
      exact ⟨k, u, g, hp, hu, hf, by simpa [settle] using hrun.symm⟩
    · cases hrun
  · rintro ⟨n, u, g, hp, hu, hf, rfl⟩
    have hrun := proceed_eq_faulted_iff.mpr ⟨n, Nat.lt_succ_self n, u, hp, hu, hf⟩
    exact ⟨n + 1, by simp [runToEnd?, hrun, settle]⟩

end NibTape.Machine

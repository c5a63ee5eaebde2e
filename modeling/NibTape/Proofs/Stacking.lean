import Mathlib.Data.List.Induction
import Mathlib.Data.Rat.Floor
import NibTape.Policy

/-!
# The loop stack as a list with room

A loop stack is asked to save a position, to give the last one back, or to let a policy leave a
loop. What it answers and what it holds are what a plain list answers and holds.

Besides, it counts its slots, and only a push that finds all of them in use adds some. This is
tested by an equality, so one might fear that the depth gets past the slots without being seen.
But the slots have room for the greatest depth so far, and whatever the depth was since, a push
that makes it greater still comes when they are all in use. So at a positive step size there are
just as many whole steps of slots as the greatest depth needs, and one if it needs none. A stack
that is filled again does not grow again.
-/

namespace NibTape.LoopStack

variable {α : Type}

/-- What may be asked of a loop stack. -/
inductive Call (α : Type) where
  /-- Saves a position. -/
  | push (a : α)
  /-- Gives the last position back. -/
  | pop
  /-- Leaves a loop at `ip` under a policy. -/
  | leave (policy : Policy) (ip : Nat)

/-- The answer to a call: a position, nothing, or the fault with which the call fails. -/
abbrev Answer (α : Type) := Except Fault (Option α)

namespace Call

def on (s : LoopStack α) : Call α → Answer α × LoopStack α
  | push a => (.ok none, s.push a)
  | pop =>
    match s.pop with
    | .ok (a, rest) => (.ok (some a), rest)
    | .error f => (.error f, s)
  | leave policy ip =>
    match policy.leaveLoop s ip with
    | .ok (some (a, rest)) => (.ok (some a), rest)
    | .ok none => (.ok none, s)
    | .error f => (.error f, s)

/-- The answer of a plain list with the last position in front, and the list after it. -/
def onList : List α → Call α → Answer α × List α
  | l, push a => (.ok none, a :: l)
  | a :: rest, pop => (.ok (some a), rest)
  | a :: rest, leave _ _ => (.ok (some a), rest)
  | [], pop => (.error .noOpenLoop, [])
  | [], leave .strict ip => (.error (.unexpectedLoopEnd ip), [])
  | [], leave .permissive _ => (.ok none, [])

/-- A call saves a position or takes one. -/
theorem saves_or_takes (c : Call α) : (∃ a, c = .push a) ∨ ∀ a, c ≠ .push a := by
  cases c with
  | push a => exact .inl ⟨a, rfl⟩
  | pop => exact .inr nofun
  | leave policy ip => exact .inr nofun

end Call

/-- Makes calls one after the other, going on after those that fail, and collects the answers. -/
def perform {σ : Type} (ask : σ → Call α → Answer α × σ) (s : σ) :
    List (Call α) → List (Answer α) × σ
  | [] => ([], s)
  | c :: calls =>
    let later := perform ask (ask s c).2 calls
    ((ask s c).1 :: later.1, later.2)

theorem perform_concat {σ : Type} (ask : σ → Call α → Answer α × σ) (s : σ)
    (calls : List (Call α)) (c : Call α) :
    perform ask s (calls ++ [c]) =
      ((perform ask s calls).1 ++ [(ask (perform ask s calls).2 c).1],
        (ask (perform ask s calls).2 c).2) := by
  induction calls generalizing s with
  | nil => rfl
  | cons b calls ih => simp only [List.cons_append, perform, ih]

variable {s : LoopStack α} {l : List α} {a : α} {c : Call α} {step : Int} {peak : Nat}

/-! ### What is held -/

theorem on_push (s : LoopStack α) (a : α) : (Call.push a).on s = (.ok none, s.push a) := rfl

/-- An empty stack has the answers of the empty list, and is left as it is. -/
theorem on_of_empty (h : s.pop? = none) (takes : ∀ a, c ≠ .push a) :
    c.on s = ((c.onList []).1, s) := by
  cases c with
  | push a => exact (takes a rfl).elim
  | pop => simp only [Call.on, pop, h, Call.onList]
  | leave policy ip => cases policy <;> simp only [Call.on, Policy.leaveLoop, h, Call.onList]

/-- A stack that holds something gives the top, to a pop as to a policy. -/
theorem on_of_popped {rest : LoopStack α} (h : s.pop? = some (a, rest))
    (takes : ∀ a, c ≠ .push a) : c.on s = (.ok (some a), rest) := by
  cases c with
  | push a => exact (takes a rfl).elim
  | pop => simp only [Call.on, pop, h]
  | leave policy ip => cases policy <;> simp only [Call.on, Policy.leaveLoop, h]

theorem onList_nil (takes : ∀ a, c ≠ .push a) : (c.onList []).2 = [] := by
  cases c with
  | push a => exact (takes a rfl).elim
  | pop => rfl
  | leave policy ip => cases policy <;> rfl

theorem onList_cons (takes : ∀ a, c ≠ .push a) : c.onList (a :: l) = (.ok (some a), l) := by
  cases c with
  | push a => exact (takes a rfl).elim
  | pop => rfl
  | leave policy ip => rfl

/-- A loop stack has the answers of the list that it holds, and then holds what that list does. -/
theorem on_eq_onList (h : s.toList.reverse = l) (c : Call α) :
    (c.on s).1 = (c.onList l).1 ∧ (c.on s).2.toList.reverse = (c.onList l).2 := by
  subst h
  obtain ⟨a, rfl⟩ | takes := c.saves_or_takes
  · rw [on_push, toList_push, List.reverse_concat]
    exact ⟨rfl, rfl⟩
  · cases hpop : s.pop? with
    | none =>
        have hnil : s.toList.reverse = [] := by rw [(pop?_eq_none_iff s).mp hpop, List.reverse_nil]
        rw [on_of_empty hpop takes, hnil, onList_nil takes]
        exact ⟨rfl, rfl⟩
    | some popped =>
        obtain ⟨a, rest⟩ := popped
        have hcons : s.toList.reverse = a :: rest.toList.reverse := by
          rw [(pop?_eq_some hpop).1, List.reverse_concat]
        rw [on_of_popped hpop takes, hcons, onList_cons takes]
        exact ⟨rfl, rfl⟩

/-- So it does whatever calls are made. -/
theorem perform_eq_onList (h : s.toList.reverse = l) (calls : List (Call α)) :
    (perform Call.on s calls).1 = (perform Call.onList l calls).1 ∧
    (perform Call.on s calls).2.toList.reverse = (perform Call.onList l calls).2 := by
  induction calls generalizing s l with
  | nil => exact ⟨rfl, h⟩
  | cons c calls ih =>
      obtain ⟨answer, held⟩ := on_eq_onList h c
      obtain ⟨answers, later⟩ := ih held
      simp only [perform, answer, answers, later, and_self]

/-! ### Slots -/

/-- A stack of whole steps of slots, with room for a depth that it had and no step more than that
needs. -/
structure RoomFor (step : Int) (peak : Nat) (s : LoopStack α) : Prop where
  stepSize : s.stepSize = step
  whole : step ∣ s.capacity
  deepest : s.depth ≤ peak
  inside : (peak : Int) ≤ s.capacity
  needed : s.capacity = step ∨ step < s.capacity ∧ s.capacity < peak + step

namespace RoomFor

theorem empty (pos : 0 < step) : (empty step : LoopStack α).RoomFor step 0 :=
  ⟨rfl, Int.dvd_refl step, Nat.le_refl 0, Int.le_of_lt pos, .inl rfl⟩

/-- The number of slots is the least number of whole steps for the greatest depth, but for a
stack that never held anything. -/
theorem capacity_eq (room : s.RoomFor step peak) (pos : 0 < step) :
    s.capacity = step * max 1 ⌈(peak : ℚ) / step⌉ := by
  obtain ⟨steps, hsteps⟩ := room.whole
  have hpos : (0 : ℚ) < step := by exact_mod_cast pos
  have inside : (peak : ℚ) ≤ steps * step := by
    have := room.inside
    rw [hsteps, Int.mul_comm] at this
    exact_mod_cast this
  have enough : ⌈(peak : ℚ) / step⌉ ≤ steps := Int.ceil_le.mpr ((div_le_iff₀ hpos).mpr inside)
  have tight : max 1 ⌈(peak : ℚ) / step⌉ = steps := by
    obtain hfirst | ⟨hmore, hneeded⟩ := room.needed
    · have hone : steps = 1 := Int.eq_one_of_mul_eq_self_right (by omega) (hsteps ▸ hfirst)
      omega
    · rw [hsteps] at hmore hneeded
      have hfew : 1 < steps := (lt_mul_iff_one_lt_right pos).mp hmore
      have hlow : (steps - 1) * step < peak := by
        rw [Int.sub_mul, Int.one_mul, Int.mul_comm]
        omega
      have hcast : ((steps : ℚ) - 1) * step < peak := by exact_mod_cast hlow
      have least : steps ≤ ⌈(peak : ℚ) / step⌉ :=
        Int.le_ceil_iff.mpr ((lt_div_iff₀ hpos).mpr hcast)
      omega
  rw [hsteps, tight]

/-- A push that finds the stack full makes it deeper than it was. Any other finds room. -/
theorem push (room : s.RoomFor step peak) (pos : 0 < step) (a : α) :
    (s.push a).RoomFor step (max peak (s.push a).depth) := by
  have hdepth : (s.push a).depth = s.depth + 1 := Array.size_push a
  have hcapacity := s.capacity_push a
  have hdeepest := room.deepest
  have hinside := room.inside
  have hneeded := room.needed
  rw [room.stepSize] at hcapacity
  refine ⟨room.stepSize, ?_, Nat.le_max_right _ _, ?_, ?_⟩
  · rw [hcapacity]
    split
    · exact Int.dvd_add room.whole (Int.dvd_refl step)
    · exact room.whole
  all_goals
    rw [hcapacity, hdepth]
    by_cases hfull : (s.depth : Int) = s.capacity
    · rw [if_pos (by simp [isFull, hfull])]
      omega
    · rw [if_neg (by simp [isFull, hfull])]
      omega

/-- A stack with the same slots and no more in it has room for the same depth. -/
theorem of_capacity {t : LoopStack α} (room : s.RoomFor step peak)
    (stepSize : t.stepSize = s.stepSize) (capacity : t.capacity = s.capacity)
    (depth : t.depth ≤ s.depth) : t.RoomFor step (max peak t.depth) := by
  have hpeak : max peak t.depth = peak := Nat.max_eq_left (Nat.le_trans depth room.deepest)
  rw [hpeak]
  exact ⟨stepSize.trans room.stepSize, capacity ▸ room.whole, Nat.le_trans depth room.deepest,
    capacity ▸ room.inside, capacity ▸ room.needed⟩

end RoomFor

/-- Only a push changes the slots. -/
theorem on_of_takes (takes : ∀ a, c ≠ .push a) :
    (c.on s).2.stepSize = s.stepSize ∧ (c.on s).2.capacity = s.capacity ∧
      (c.on s).2.depth ≤ s.depth := by
  cases hpop : s.pop? with
  | none =>
      rw [on_of_empty hpop takes]
      exact ⟨rfl, rfl, Nat.le_refl _⟩
  | some popped =>
      obtain ⟨a, rest⟩ := popped
      obtain ⟨hlist, hcapacity, hstep⟩ := pop?_eq_some hpop
      rw [on_of_popped hpop takes]
      refine ⟨hstep, hcapacity, ?_⟩
      rw [← length_toList, ← length_toList, hlist, List.length_append]
      exact Nat.le_add_right _ _

theorem RoomFor.on (room : s.RoomFor step peak) (pos : 0 < step) (c : Call α) :
    (c.on s).2.RoomFor step (max peak (c.on s).2.depth) := by
  obtain ⟨a, rfl⟩ | takes := c.saves_or_takes
  · exact room.push pos a
  · obtain ⟨stepSize, capacity, depth⟩ := on_of_takes (s := s) takes
    exact room.of_capacity stepSize capacity depth

def depths (s : LoopStack α) (calls : List (Call α)) : Set Nat :=
  {d | ∃ made, made <+: calls ∧ (perform Call.on s made).2.depth = d}

theorem isGreatest_depths_concat {calls : List (Call α)}
    (greatest : IsGreatest (s.depths calls) peak) :
    IsGreatest (s.depths (calls ++ [c]))
      (max peak (perform Call.on s (calls ++ [c])).2.depth) := by
  obtain ⟨⟨made, hmade, hpeak⟩, hbound⟩ := greatest
  constructor
  · rcases Nat.le_total peak (perform Call.on s (calls ++ [c])).2.depth with hle | hle
    · rw [Nat.max_eq_right hle]
      exact ⟨_, List.prefix_rfl, rfl⟩
    · rw [Nat.max_eq_left hle]
      exact ⟨made, hmade.trans (List.prefix_append calls [c]), hpeak⟩
  · rintro d ⟨made, hmade, rfl⟩
    obtain rfl | hmade := List.prefix_concat_iff.mp hmade
    · exact Nat.le_max_right _ _
    · exact Nat.le_trans (hbound ⟨made, hmade, rfl⟩) (Nat.le_max_left _ _)

/-- Whatever calls are made, a stack that was empty at first has room for its greatest depth. -/
theorem exists_roomFor (pos : 0 < step) (calls : List (Call α)) :
    ∃ peak, IsGreatest ((empty step : LoopStack α).depths calls) peak ∧
      (perform Call.on (empty step) calls).2.RoomFor step peak := by
  induction calls using List.reverseRecOn with
  | nil =>
      refine ⟨0, ⟨⟨[], List.prefix_rfl, rfl⟩, ?_⟩, .empty pos⟩
      rintro d ⟨made, hmade, rfl⟩
      rw [List.prefix_nil.mp hmade]
      exact Nat.le_refl 0
  | append_singleton calls c ih =>
      obtain ⟨peak, greatest, room⟩ := ih
      refine ⟨_, isGreatest_depths_concat greatest, ?_⟩
      rw [perform_concat]
      exact room.on pos c

/-- A loop stack that was empty at first has the answers and the content of a plain list, whatever
calls are made. An empty one fails to pop, and to leave a loop under the strict policy, has
nothing to leave under the permissive policy, and is left as it is by all three. Its slots are
one step if it never held anything, and otherwise the least number of steps that has room for
the greatest depth so far. So its depth is never greater, and only a push changes its slots. -/
theorem loop_stack_is_list_with_room {step : Int} (pos : 1 ≤ step) (calls : List (Call α)) :
    let onStack := perform Call.on (empty step) calls
    let onList := perform Call.onList [] calls
    let s := onStack.2
    onStack.1 = onList.1 ∧ s.toList.reverse = onList.2 ∧
    (s.toList = [] → ∀ ip,
      Call.pop.on s = (.error .noOpenLoop, s) ∧
      (Call.leave .strict ip).on s = (.error (.unexpectedLoopEnd ip), s) ∧
      (Call.leave .permissive ip).on s = (.ok none, s)) ∧
    (∃ peak, IsGreatest ((empty step).depths calls) peak ∧
      s.capacity = step * max 1 ⌈(peak : ℚ) / step⌉) ∧
    (s.depth : Int) ≤ s.capacity ∧
    ∀ c : Call α, (∀ a, c ≠ .push a) → (c.on s).2.capacity = s.capacity := by
  intro onStack onList s
  obtain ⟨answers, held⟩ := perform_eq_onList (s := (empty step : LoopStack α)) rfl calls
  obtain ⟨peak, greatest, room⟩ := exists_roomFor (α := α) pos calls
  refine ⟨answers, held, ?_, ⟨peak, greatest, room.capacity_eq pos⟩, ?_, ?_⟩
  · intro hnil ip
    have hpop := (pop?_eq_none_iff s).mpr hnil
    exact ⟨on_of_empty hpop nofun, on_of_empty hpop nofun, on_of_empty hpop nofun⟩
  · have hdeepest : s.depth ≤ peak := room.deepest
    have hinside : (peak : Int) ≤ s.capacity := room.inside
    omega
  · intro c takes
    exact (on_of_takes takes).2.1

/-- With two slots a step, a third position makes four slots. Emptied under both policies and
filled again the stack does not grow, and the failures in between change nothing. -/
theorem loop_stack_filled_again_keeps_room :
    let calls : List (Call Nat) := [.pop, .push 7, .push 8, .push 9, .leave .strict 1, .pop,
      .leave .permissive 2, .leave .permissive 3, .leave .strict 4, .push 5, .push 6, .push 7,
      .push 8]
    let onStack := perform Call.on (empty 2) calls
    (1 : Int) ≤ 2 ∧
    onStack.1 = [.error .noOpenLoop, .ok none, .ok none, .ok none, .ok (some 9), .ok (some 8),
      .ok (some 7), .ok none, .error (.unexpectedLoopEnd 4), .ok none, .ok none, .ok none,
      .ok none] ∧
    onStack.2.toList.reverse = [8, 7, 6, 5] ∧ onStack.2.capacity = 4 ∧
    ∃ peak, IsGreatest ((empty 2).depths calls) peak ∧ 4 = 2 * max 1 ⌈(peak : ℚ) / (2 : Int)⌉ := by
  intro calls onStack
  have pos : (1 : Int) ≤ 2 := by decide
  obtain ⟨answers, held, -, ⟨peak, greatest, capacity⟩, -, -⟩ :=
    loop_stack_is_list_with_room pos calls
  have hcapacity : onStack.2.capacity = 4 := by decide
  exact ⟨pos, answers, held, hcapacity, peak, greatest, hcapacity.symm.trans capacity⟩

end NibTape.LoopStack

import NibTape.Proofs.Lockstep

/-!
# What a run learns of its input

A run learns of its input no more than the bytes that it has read. The rule for the end of the
input makes an input an endless stream, and two runs whose streams begin alike are alike until
one of them reads past that beginning. What the run has not read is still there.

So a program cannot tell the end of the input from the bytes that stand for it, if a fixed byte
does. The rule that leaves the cell alone is different: no byte does the same.
-/

namespace NibTape

namespace EndOfInput

variable {eof eof' : EndOfInput} {b : UInt8}

/-- An input that ends is like one that goes on for a while with what stands for its end. -/
theorem stream_append_replicate (hfill : eof.fill? = some b) (eof' : EndOfInput)
    (input : List UInt8) {k i : Nat} (hi : i < input.length + k) :
    eof.stream input i = eof'.stream (input ++ List.replicate k b) i := by
  rw [stream_eq, stream_eq]
  rcases Nat.lt_or_ge i input.length with hlt | hge
  · rw [List.getElem?_append_left hlt, List.getElem?_eq_getElem hlt]
    rfl
  · have hk : i - input.length < k := by omega
    rw [List.getElem?_append_right hge, List.getElem?_eq_none hge,
      List.getElem?_replicate_of_lt hk, hfill]
    rfl

end EndOfInput

theorem State.beside_initial (cells : Nat) (input input' : List UInt8) :
    (State.initial cells input).Beside [] (State.initial cells input') :=
  ⟨rfl, rfl, rfl, rfl, rfl⟩

namespace Machine

variable {m : Machine} {s t u : State} {eof : EndOfInput}

theorem reads_le (m : Machine) (n : Nat) (s : State) : m.reads n s ≤ n := by
  induction n generalizing s with
  | zero => exact Nat.le_refl 0
  | succ n ih =>
      have hnext : m.readsNext s ≤ 1 := by
        unfold readsNext
        split <;> omega
      cases hstep : m.step s with
      | error h =>
          rw [reads_of_error hstep]
          exact Nat.zero_le _
      | ok t =>
          have := ih t
          rw [reads_of_ok hstep]
          omega

/-- A run takes from its input as many bytes as it executes reads, as far as there are any. -/
theorem unread_proceed (valid : m.Valid s) (n : Nat) :
    (m.proceed n s).state.unread = s.unread.drop (m.reads n s) := by
  have beside : s.Beside [] s := ⟨rfl, rfl, rfl, rfl, rfl⟩
  have alike : (m.proceed n s).Alike _ _ ((m.withEnd m.eof).proceed n s) :=
    (proceed_beside valid beside n fun _ _ => rfl).2
  exact alike.state.2.1

/-- Streams that agree as far as a run reads give the same run. -/
theorem proceed_of_agree (valid : m.Valid s) (beside : s.Beside [] u) {r : Nat}
    (agree : ∀ i < r, m.eof.stream s.unread i = eof.stream u.unread i) {n : Nat}
    (few : m.reads n s ≤ r) :
    m.reads n s = (m.withEnd eof).reads n u ∧
      (m.proceed n s).Alike (State.Beside []) Eq ((m.withEnd eof).proceed n u) := by
  obtain ⟨hcount, alike⟩ := proceed_beside valid beside n fun i hi =>
    agree i (Nat.lt_of_lt_of_le hi few)
  exact ⟨hcount.symm, alike.imp fun _ _ h => h.1⟩

end Machine

/-- Two runs of a program, under one policy and with one step size, on inputs and rules for
their end that make streams with the same first `r` entries. As long as one of them executes no
more than `r` reads, so does the other, and after each number of steps they have come to states
that differ in the unread input only, or to the same fault. The unread input is the input
without as many bytes as reads were executed. Where a fixed byte stands for the end of the
input, more of these bytes at its end change nothing, if there are enough of them. -/
theorem runs_depend_on_bytes_read {size : Int} {cells : Nat}
    (valid : StepSize.ofInt size = .ok cells) (program : Program) (policy : Policy)
    (eof eof' : EndOfInput) (input input' : List UInt8) {r : Nat}
    (agree : ∀ i < r, eof.stream input i = eof'.stream input' i) :
    let m : Machine := { program, policy, eof }
    let m' : Machine := { program, policy, eof := eof' }
    let start := State.initial cells input
    let start' := State.initial cells input'
    (∀ n, m.reads n start ≤ r ∨ m'.reads n start' ≤ r →
      m.reads n start = m'.reads n start' ∧
        (m.proceed n start).Alike (State.Beside []) Eq (m'.proceed n start')) ∧
    (∀ n, (m.proceed n start).state.unread =
      input.drop (min (m.reads n start) input.length)) ∧
    ∀ b, (eof = .allOnes ∧ b = 0xFF) ∨ (eof = .zero ∧ b = 0) →
      let longer := fun k => State.initial cells (input ++ List.replicate k b)
      (∀ n k, m.reads n start ≤ input.length + k →
        m.reads n start = m'.reads n (longer k) ∧
          (m.proceed n start).Alike (State.Beside []) Eq (m'.proceed n (longer k))) ∧
      ∀ fuel limit, ∃ enough, ∀ k ≥ enough,
        Option.Rel (Machine.EndAlike (State.Beside []) Eq)
          (m.run? fuel limit start) (m'.run? fuel limit (longer k)) := by
  intro m m' start start'
  have pos : 0 < cells := (StepSize.ofInt_eq_ok_iff.mp valid).2.1
  have hstart : m.Valid start := Machine.valid_initial m pos input
  have hstart' : m'.Valid start' := Machine.valid_initial m' pos input'
  have beside := State.beside_initial cells
  refine ⟨?_, ?_, ?_⟩
  · rintro n (few | few)
    · exact Machine.proceed_of_agree hstart (beside input input') agree few
    · -- the second machine is the first one's partner, so its reads are counted there
      obtain ⟨hcount, -⟩ := Machine.proceed_of_agree hstart' (beside input' input)
        (fun i hi => (agree i hi).symm) few
      exact Machine.proceed_of_agree hstart (beside input input') agree (hcount ▸ few)
  · intro n
    rw [Machine.unread_proceed hstart]
    exact List.drop_eq_drop_min
  · intro b fixed longer
    have hfill : eof.fill? = some b := by
      obtain ⟨rfl, rfl⟩ | ⟨rfl, rfl⟩ := fixed <;> rfl
    have filled : ∀ n k, m.reads n start ≤ input.length + k →
        m.reads n start = m'.reads n (longer k) ∧
          (m.proceed n start).Alike (State.Beside []) Eq (m'.proceed n (longer k)) := by
      intro n k few
      apply Machine.proceed_of_agree hstart (beside input _) _ few
      intro i hi
      exact EndOfInput.stream_append_replicate hfill eof' input hi
    refine ⟨filled, ?_⟩
    intro fuel limit
    refine ⟨Machine.allowance fuel limit start, ?_⟩
    intro k hk
    have few := m.reads_le (Machine.allowance fuel limit start) start
    have hsteps : start.steps = (longer k).steps := rfl
    apply Machine.run?_alike hsteps (filled (Machine.allowance fuel limit start) k (by omega)).2
    · intro t v after
      exact Machine.flush_beside after
    · intro t v l after
      rw [after.ip]

/-- The program `,[.,]` on the byte 9 and on the bytes 9, 0 and 5, where zeros stand for the end
of the first input: after six steps, two of them reads, both runs have come to the same end, and
the byte 5 is still there. -/
theorem echo_ends_at_a_zero_byte :
    let program : Program := #[7, 4, 0, 7, 1]
    let m : Machine := { program, policy := .strict, eof := .zero }
    let m' : Machine := { program, policy := .strict, eof := .unchanged }
    ∃ s u, m.proceed 6 (State.initial 1 [9]) = .finished s ∧
      m'.proceed 6 (State.initial 1 [9, 0, 5]) = .finished u ∧
      s.output = [9] ∧ s.unread = [] ∧ u.unread = [5] ∧ s.Beside [] u := by
  intro program m m'
  have valid : StepSize.ofInt 1 = .ok 1 := rfl
  have agree : ∀ i < 2, EndOfInput.zero.stream [9] i = EndOfInput.unchanged.stream [9, 0, 5] i := by
    decide
  obtain ⟨alike, -, -⟩ :=
    runs_depend_on_bytes_read valid program .strict .zero .unchanged [9] [9, 0, 5] agree
  obtain ⟨s, hs, houtput, hunread⟩ : ∃ s, m.proceed 6 (State.initial 1 [9]) = .finished s ∧
      s.output = [9] ∧ s.unread = [] := ⟨_, rfl, rfl, rfl⟩
  obtain ⟨u, hu, hleft⟩ : ∃ u, m'.proceed 6 (State.initial 1 [9, 0, 5]) = .finished u ∧
      u.unread = [5] := ⟨_, rfl, rfl⟩
  have few : m.reads 6 (State.initial 1 [9]) ≤ 2 := by decide
  have together : (m.proceed 6 (State.initial 1 [9])).Alike (State.Beside []) Eq
      (m'.proceed 6 (State.initial 1 [9, 0, 5])) := (alike 6 (.inl few)).2
  have beside := together.state
  rw [hs, hu] at beside
  exact ⟨s, u, hs, hu, houtput, hunread, hleft, beside⟩

end NibTape

import NibTape.CommandLine.Invocation

/-!
# Which configurations machines can be set up with

A configuration is checked when it is made, and its step size is used when a machine is set up.
Both agree on numbers: an accepted number is the length of the tape, the number of slots of the
loop stack, and what is added to either when it is full.

They do not agree on texts. The check reads the number that a text spells and forgets it, so the
configuration keeps the text, and no machine can be set up with that.
-/

namespace NibTape

/-- A state in which tape and loop stack have one step each, of the given size. -/
structure State.SizedBy (cells : Nat) (s : State) : Prop where
  tapeLength : s.tape.length = cells
  tapeStep : s.tape.stepSize = cells
  loopCapacity : s.loops.capacity = cells
  loopStep : s.loops.stepSize = cells

theorem State.sizedBy_initial (cells : Nat) (input : List UInt8) :
    (State.initial cells input).SizedBy cells := ⟨rfl, rfl, rfl, rfl⟩

namespace StepSize

variable {v : Value} {cells : Nat}

/-- The check accepts numbers and texts only, and a number only as it is. -/
theorem int_or_text_of_check (h : check v = .ok cells) :
    v = .int cells ∨ ∃ text, v = .text text := by
  cases v with
  | int n => exact .inl (congrArg Value.int (ofInt_eq_ok_iff.mp h).1)
  | text s => exact .inr ⟨s, rfl⟩
  | _ => cases h

end StepSize

namespace Config

/-- The settings with a step size and a policy, where a rule for the end of the input may have
another value in its place. -/
def settingsOf (v : Value) (strict : Bool) (eof : EndOfInput) (other? : Option Value) : Settings :=
  { stepSize := v, strict, eofWord? := some (.text eof.label), eofValue? := other? }

variable {v : Value} {strict : Bool} {eof : EndOfInput} {other? : Option Value}

theorem make_of_refused {cause : StepSize.Invalid} (h : StepSize.check v = .error cause) :
    make (settingsOf v strict eof other?) = .error (.stepSize cause) := by
  simp [make, settingsOf, eofOfWord, checkStepSize, h, bind, Except.bind]

/-- The rule for the end of the input is looked at after the step size. -/
theorem make_of_checked {cells : Nat} (h : StepSize.check v = .ok cells) :
    make (settingsOf v strict eof other?) =
      match other? with
      | some w => .error (.eofNotARule w)
      | none => .ok { stepSize := v, strict, eof } := by
  cases other? <;> simp [make, settingsOf, eofOfWord, checkStepSize, h, bind, Except.bind] <;> rfl

/-- A configuration is refused for its step size exactly if the step size does not pass the check,
and for the same reason. It is accepted exactly if the step size passes and a rule for the end
of the input is given. With an accepted number a machine can be set up for every program, and its
tape and its loop stack have as many cells and slots as the check says, and grow by as many. An
accepted text stays a text, and no machine can be set up with it. -/
theorem accepted_numbers_set_machines_up (v : Value) (strict : Bool) (eof : EndOfInput)
    (other? : Option Value) :
    let made := make (settingsOf v strict eof other?)
    (∀ cause, made = .error (.stepSize cause) ↔ StepSize.check v = .error cause) ∧
    ((∃ c, made = .ok c) ↔ (∃ cells, StepSize.check v = .ok cells) ∧ other? = none) ∧
    ∀ c, made = .ok c → ∀ program input,
      (∀ n, v = .int n → ∃ m s cells, c.setUp? program input = some (m, s) ∧
        m = { program, policy := c.policy, eof } ∧ StepSize.check v = .ok cells ∧
        s.SizedBy cells) ∧
      ((∃ text, v = .text text) ↔ c.setUp? program input = none) := by
  intro made
  cases h : StepSize.check v with
  | error cause =>
      have hmade : made = .error (.stepSize cause) := make_of_refused h
      rw [hmade]
      exact ⟨by simp, by simp, nofun⟩
  | ok cells =>
      have hmade : made = _ := make_of_checked h
      rw [hmade]
      cases other? with
      | some w => exact ⟨by simp, by simp, nofun⟩
      | none =>
          refine ⟨by simp, by simp, ?_⟩
          rintro c ⟨⟩ program input
          obtain rfl | ⟨text, rfl⟩ := StepSize.int_or_text_of_check h
          · refine ⟨?_, nofun, nofun⟩
            rintro n ⟨⟩
            exact ⟨_, _, cells, rfl, rfl, rfl, State.sizedBy_initial cells input⟩
          · exact ⟨nofun, fun _ => rfl, fun _ => ⟨text, rfl⟩⟩

/-- The largest step size is accepted, and a machine is set up with it. -/
theorem largest_step_size_sets_machine_up :
    ∃ c, make (settingsOf (.int 0xFFFFFFFF) true .zero none) = .ok c ∧
      ∃ m s, c.setUp? #[0x24, 0x51] [7] = some (m, s) ∧ m.program = #[0x24, 0x51] ∧
        m.policy = .strict ∧ s.SizedBy 0xFFFFFFFF := by
  have hmade : make (settingsOf (.int 0xFFFFFFFF) true .zero none) =
      .ok { stepSize := .int 0xFFFFFFFF, strict := true, eof := .zero } := rfl
  obtain ⟨-, -, machines⟩ :=
    accepted_numbers_set_machines_up (.int 0xFFFFFFFF) true .zero none
  obtain ⟨m, s, cells, hsetUp, rfl, hcells, sized⟩ :=
    (machines _ hmade #[0x24, 0x51] [7]).1 _ rfl
  cases hcells
  exact ⟨_, hmade, _, s, hsetUp, rfl, rfl, sized⟩

/-- A text that spells a step size is accepted, yet no machine can be set up with it. -/
theorem accepted_text_sets_no_machine_up :
    ∃ c, make (settingsOf (.text "16") false .allOnes none) = .ok c ∧
      StepSize.check (.text "16") = .ok 16 ∧
      ∀ program input, c.setUp? program input = none := by
  have hcells : StepSize.check (.text "16") = .ok 16 := by
    have hread : StepSize.integer? "16" = some 16 := by decide +kernel
    rw [StepSize.check, hread]
    rfl
  exact ⟨_, make_of_checked hcells, hcells, fun _ _ => rfl⟩

end Config

namespace Invocation

variable {i : Invocation} {cells : Nat} {eof : EndOfInput}

/-- The number that the step size spells is accepted once more. -/
theorem config_of_checked (hsize : StepSize.check (setting i.memorySize) = .ok cells)
    (heof : i.eof = some eof.label) :
    i.config = .ok { stepSize := .int cells, strict := i.safe, eof } := by
  have again : StepSize.check (.int cells) = .ok cells := StepSize.ofInt_of_check hsize
  simp only [config, hsize, heof]
  exact Config.make_of_checked again

end Invocation

end NibTape

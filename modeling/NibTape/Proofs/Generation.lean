import NibTape.Fuzz.Generator

/-!
# How structured programs are made

A structured program grows to its right by single opcodes and by whole loops, until it has its
budget. The body of a loop grows in the same way, with a budget of its own that is at most half
of what is left and with one level less of loops to nest. All that is shown of structured
programs is shown by induction on this growth; which words the choices were made from does not
matter.

A choice fails only if there are too few words, or if a number is asked for below none.
-/

namespace NibTape

namespace Random.Draw

variable {α β : Type} {s t : Supply} {n : Nat}

theorem pure_eq_ok {a b : α} : (pure a : Draw α) s = .ok (b, t) ↔ a = b ∧ s = t := by
  change Except.ok (a, s) = .ok (b, t) ↔ _
  rw [Except.ok.injEq, Prod.mk.injEq]

theorem bind_eq_ok {x : Draw α} {f : α → Draw β} {b : β} :
    (x >>= f) s = .ok (b, t) ↔ ∃ a u, x s = .ok (a, u) ∧ f a u = .ok (b, t) := by
  change (x s >>= fun r => f r.1 r.2) = .ok (b, t) ↔ _
  cases x s with
  | error e => simp [bind, Except.bind]
  | ok r =>
      obtain ⟨a, u⟩ := r
      simp [bind, Except.bind, and_assoc]

/-- To see what is chosen, the words that are left need not be looked at. -/
theorem exists_of_result {x : Draw α} {a : α} (h : (x s).toOption.map Prod.fst = some a) :
    ∃ t, x s = .ok (a, t) := by
  cases hx : x s with
  | error e =>
      rw [hx] at h
      cases h
  | ok r =>
      obtain ⟨b, t⟩ := r
      rw [hx] at h
      cases h
      exact ⟨t, rfl⟩

theorem belowWithin_lt {count tries v : Nat}
    (h : belowWithin count n tries s = .ok (v, t)) : v < n := by
  induction tries generalizing s with
  | zero => cases h
  | succ tries ih =>
      obtain ⟨w, u, -, h⟩ := bind_eq_ok.mp h
      split at h
      · obtain ⟨rfl, -⟩ := pure_eq_ok.mp h
        assumption
      · exact ih h

theorem below_lt {v : Nat} (h : below n s = .ok (v, t)) : v < n := belowWithin_lt h

theorem oneTo_bounds {bound : Int} {v : Nat} (h : oneTo bound s = .ok (v, t)) :
    1 ≤ v ∧ (v : Int) ≤ bound := by
  rw [oneTo] at h
  split at h
  · cases h
  · obtain ⟨w, u, hw, h⟩ := bind_eq_ok.mp h
    obtain ⟨rfl, -⟩ := pure_eq_ok.mp h
    have hlt := below_lt hw
    omega

theorem length_of_times {d : Draw α} {as : List α} (h : times d n s = .ok (as, t)) :
    as.length = n := by
  induction n generalizing s as with
  | zero =>
      obtain ⟨rfl, -⟩ := pure_eq_ok.mp h
      rfl
  | succ n ih =>
      obtain ⟨a, u, -, h⟩ := bind_eq_ok.mp h
      obtain ⟨rest, v, hrest, h⟩ := bind_eq_ok.mp h
      obtain ⟨rfl, rfl⟩ := pure_eq_ok.mp h
      rw [List.length_cons, ih hrest]

/-- What holds of every result holds of all results of a repeated choice. -/
theorem forall_of_times {P : α → Prop} {d : Draw α} {as : List α}
    (each : ∀ {s a t}, d s = .ok (a, t) → P a) (h : times d n s = .ok (as, t)) :
    ∀ a ∈ as, P a := by
  induction n generalizing s as with
  | zero =>
      obtain ⟨rfl, -⟩ := pure_eq_ok.mp h
      exact nofun
  | succ n ih =>
      obtain ⟨a, u, ha, h⟩ := bind_eq_ok.mp h
      obtain ⟨rest, v, hrest, h⟩ := bind_eq_ok.mp h
      obtain ⟨rfl, rfl⟩ := pure_eq_ok.mp h
      exact List.forall_mem_cons.mpr ⟨each ha, ih hrest⟩

/-! ### Choices that fail -/

/-- A choice that fails only if there are too few words. -/
def FailsDry (x : Draw α) : Prop :=
  ∀ s e, x s = .error e → e = .outOfWords

theorem failsDry_pure (a : α) : (pure a : Draw α).FailsDry := by
  intro s e h
  cases h

theorem FailsDry.bind {x : Draw α} {f : α → Draw β} (first : x.FailsDry)
    (after : ∀ a, (f a).FailsDry) : (x >>= f).FailsDry := by
  intro s e h
  change (x s >>= fun r => f r.1 r.2) = .error e at h
  cases hx : x s with
  | error d =>
      rw [hx] at h
      cases h
      exact first s e hx
  | ok r =>
      rw [hx] at h
      exact after r.1 r.2 e h

theorem failsDry_word : word.FailsDry := by
  intro s e h
  rw [word] at h
  split at h
  · cases h
  · cases h
    rfl

theorem failsDry_fraction : fraction.FailsDry :=
  failsDry_word.bind fun _ => failsDry_word.bind fun _ => failsDry_pure _

theorem failsDry_digits (top whole : Nat) : (digits top whole).FailsDry := by
  induction whole with
  | zero => exact failsDry_word.bind fun _ => failsDry_pure _
  | succ whole ih => exact failsDry_word.bind fun _ => ih.bind fun _ => failsDry_pure _

theorem failsDry_belowWithin (count n tries : Nat) : (belowWithin count n tries).FailsDry := by
  induction tries with
  | zero =>
      intro s e h
      cases h
      rfl
  | succ tries ih =>
      refine (failsDry_digits _ _).bind fun v => ?_
      split
      · exact failsDry_pure v
      · exact ih

theorem failsDry_below (n : Nat) : (below n).FailsDry :=
  fun s e h => failsDry_belowWithin _ n _ s e h

theorem failsDry_oneTo {bound : Int} (h : 1 ≤ bound) : (oneTo bound).FailsDry := by
  rw [oneTo, if_neg (by omega)]
  exact (failsDry_below _).bind fun _ => failsDry_pure _

theorem FailsDry.times {d : Draw α} (dry : d.FailsDry) (n : Nat) : (times d n).FailsDry := by
  induction n with
  | zero => exact failsDry_pure []
  | succ n ih => exact dry.bind fun a => ih.bind fun rest => failsDry_pure (a :: rest)

end Random.Draw

namespace Fuzz

open NibTape.Random

namespace Choice

/-- The opcode that a kind of piece consists of; a loop consists of several. -/
def opcode? : Choice → Option Opcode
  | incrPtr => some .incrPtr
  | decrPtr => some .decrPtr
  | incrVal => some .incrVal
  | decrVal => some .decrVal
  | write => some .write
  | read => some .read
  | loop => none
  | unmatchedEnd => some .loopEnd

theorem ne_loopStart_of_opcode? {c : Choice} {op : Opcode} (h : c.opcode? = some op) :
    op ≠ .loopStart := by
  rintro rfl
  cases c <;> cases h

theorem failsDry_draw : Choice.draw.FailsDry :=
  Draw.failsDry_fraction.bind fun _ => Draw.failsDry_pure _

end Choice

/-- A sequence of opcodes grows into another one up to a budget, with loops nested at most
`depth` deep in what is added. -/
inductive Grown : (budget depth : Nat) → (made result : List Opcode) → Prop where
  /-- The budget is reached. -/
  | full {budget depth : Nat} {made : List Opcode} (reached : budget ≤ made.length) :
      Grown budget depth made made
  /-- An opcode is added, which may be a loop end. -/
  | piece {budget depth : Nat} {made result : List Opcode} {op : Opcode}
      (short : made.length < budget) (plain : op ≠ .loopStart)
      (further : Grown budget depth (made ++ [op]) result) : Grown budget depth made result
  /-- A loop is added, whose body ends with a decrement. -/
  | loop {budget depth inner : Nat} {made body result : List Opcode}
      (short : made.length < budget) (share : inner ≤ (budget - made.length) / 2)
      (inside : Grown inner depth [] body)
      (further : Grown budget (depth + 1)
        (made ++ .loopStart :: (body ++ [.decrVal, .loopEnd])) result) :
      Grown budget (depth + 1) made result

namespace Generator

variable {rounds budget depth : Nat} {made result : Array Opcode} {s t : Supply}

/-- A round adds the opcode that is chosen, or makes the body of a loop and adds the loop,
unless loops are nested as deep as they may be. -/
theorem extend_succ (rounds budget depth : Nat) (made : Array Opcode) :
    extend (rounds + 1) budget depth made =
      if budget ≤ made.size then pure made
      else Choice.draw >>= fun choice =>
        match choice.opcode?, depth with
        | some op, depth => extend rounds budget depth (made.push op)
        | none, 0 => extend rounds budget 0 made
        | none, inside + 1 =>
          Draw.below ((budget - made.size) / 2 + 1) >>= fun inner =>
          extend rounds inner inside #[] >>= fun body =>
          extend rounds budget (inside + 1)
            (made.push .loopStart ++ body ++ #[.decrVal, .loopEnd]) := by
  rw [extend.eq_def]
  refine ite_congr rfl (fun _ => rfl) fun _ =>
    congrArg (Choice.draw >>= ·) (funext fun choice => ?_)
  cases choice <;> cases depth <;> rfl

/-- What the generator makes has grown from what there was. -/
theorem grown_of_extend (h : extend rounds budget depth made s = .ok (result, t)) :
    Grown budget depth made.toList result.toList := by
  induction rounds generalizing budget depth made result s t with
  | zero => cases h
  | succ rounds ih =>
      rw [extend_succ] at h
      split at h
      · obtain ⟨rfl, -⟩ := Draw.pure_eq_ok.mp h
        exact .full ‹_›
      · have short : made.toList.length < budget := Nat.lt_of_not_le ‹_›
        obtain ⟨choice, u, -, h⟩ := Draw.bind_eq_ok.mp h
        cases hop : choice.opcode? with
        | some op =>
            rw [hop] at h
            exact .piece short (Choice.ne_loopStart_of_opcode? hop) (by simpa using ih h)
        | none =>
            rw [hop] at h
            cases depth with
            | zero => exact ih h
            | succ depth =>
                obtain ⟨inner, v, hinner, h⟩ := Draw.bind_eq_ok.mp h
                obtain ⟨body, w, hbody, h⟩ := Draw.bind_eq_ok.mp h
                have share := Nat.le_of_lt_succ (Draw.below_lt hinner)
                exact .loop short share (ih hbody) (by simpa using ih h)

/-- A structured sequence has grown from none. -/
theorem grown_of_instructions {ops : List Opcode}
    (h : instructions budget depth s = .ok (ops, t)) : Grown budget depth [] ops := by
  rw [instructions] at h
  cases hextend : extend ((budget + depth + 1) * s.patience) budget depth #[] s with
  | error e => simp [hextend, Functor.map, Except.map] at h
  | ok r =>
      obtain ⟨made, u⟩ := r
      simp only [hextend, Functor.map, Except.map, Except.ok.injEq, Prod.mk.injEq] at h
      obtain ⟨rfl, -⟩ := h
      exact grown_of_extend hextend

/-- A structured program is packed from opcodes that have grown from none. -/
theorem grown_of_structuredProgram {maxInstructions maxDepth : Int} {bytes : List UInt8}
    (h : structuredProgram maxInstructions maxDepth s = .ok (bytes, t)) :
    ∃ (budget : Nat) (ops : List Opcode), 1 ≤ budget ∧ (budget : Int) ≤ maxInstructions ∧
      Grown budget maxDepth.toNat [] ops ∧ bytes = Packed.join (ops.map Opcode.byte) := by
  obtain ⟨budget, u, hbudget, h⟩ := Draw.bind_eq_ok.mp h
  obtain ⟨ops, v, hops, h⟩ := Draw.bind_eq_ok.mp h
  obtain ⟨rfl, -⟩ := Draw.pure_eq_ok.mp h
  obtain ⟨hlow, hhigh⟩ := Draw.oneTo_bounds hbudget
  exact ⟨budget, ops, hlow, hhigh, grown_of_instructions hops, rfl⟩

theorem failsDry_extend (rounds budget depth : Nat) (made : Array Opcode) :
    (extend rounds budget depth made).FailsDry := by
  induction rounds generalizing budget depth made with
  | zero =>
      intro s e h
      cases h
      rfl
  | succ rounds ih =>
      rw [extend_succ]
      split
      · exact Draw.failsDry_pure made
      · refine Choice.failsDry_draw.bind fun choice => ?_
        cases choice.opcode? with
        | some op => exact ih budget depth _
        | none =>
            cases depth with
            | zero => exact ih budget 0 made
            | succ depth =>
                refine (Draw.failsDry_below _).bind fun inner => ?_
                exact (ih inner depth #[]).bind fun body => ih budget (depth + 1) _

theorem failsDry_instructions (budget depth : Nat) : (instructions budget depth).FailsDry := by
  intro s e h
  rw [instructions] at h
  cases hextend : extend ((budget + depth + 1) * s.patience) budget depth #[] s with
  | error d =>
      simp only [hextend, Functor.map, Except.map, Except.error.injEq] at h
      exact h ▸ failsDry_extend _ budget depth #[] s d hextend
  | ok r => simp [hextend, Functor.map, Except.map] at h

/-- With room for one instruction at least, a structured program is made unless there are too
few words. -/
theorem failsDry_structuredProgram {maxInstructions : Int} (h : 1 ≤ maxInstructions)
    (maxDepth : Int) : (structuredProgram maxInstructions maxDepth).FailsDry :=
  (Draw.failsDry_oneTo h).bind fun budget =>
    (failsDry_instructions budget maxDepth.toNat).bind fun _ => Draw.failsDry_pure _

theorem failsDry_randomBytes {maxLength : Int} (h : 1 ≤ maxLength) :
    (randomBytes maxLength).FailsDry :=
  (Draw.failsDry_oneTo h).bind fun length =>
    ((Draw.failsDry_below 256).times length).bind fun _ => Draw.failsDry_pure _

/-- With the default limits, a program is made unless there are too few words. -/
theorem failsDry_drawDefault (g : Generator) : g.drawDefault.FailsDry := by
  have random : (randomBytes maxLength).FailsDry := failsDry_randomBytes (by decide)
  have structured : (structuredProgram maxInstructions maxDepth).FailsDry :=
    failsDry_structuredProgram (by decide) maxDepth
  cases g with
  | random => exact random
  | structured => exact structured
  | mixed =>
      refine Draw.failsDry_fraction.bind fun k => ?_
      split
      · exact random
      · exact structured

end Generator

end Fuzz

end NibTape

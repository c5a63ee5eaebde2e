import Mathlib.Data.Nat.SuccPred
import Mathlib.Order.Bounds.Basic
import NibTape.Proofs.Dialogue

/-!
# Where the cursor is

The moves that a run has made, right less left, are a walk on the integers. Under the strict
policy the cursor is that walk modulo the number of its positions, whatever came in between.

Under the permissive policy a move left of the first cell is ignored, and then no single count
tells where the cursor is. It is the walk reflected at zero: the height of the walk above the
lowest point that it has come to so far. A move is ignored exactly if it brings the walk below
that point, and so the lowest point also counts the ignored moves. This holds for as long as the
walk is too short for the cursor to come over its last position.
-/

namespace NibTape

/-- How far an instruction moves on the walk, to the right. -/
def Opcode.shift : Opcode → Int
  | incrPtr => 1
  | decrPtr => -1
  | write | loopEnd | incrVal | loopStart | decrVal | read => 0

namespace Machine

variable {m : Machine} {start s t u : State} {n : Nat} {low : Int}

/-- How often the first `n` steps execute an instruction. -/
def executions (m : Machine) (op : Opcode) (n : Nat) (start : State) : Nat :=
  (m.executed n start).countP fun u => m.program.opcode? u.ip == some op

/-- The moves right less the moves left in the first `n` steps. -/
def walk (m : Machine) (start : State) (n : Nat) : Int :=
  m.executions .incrPtr n start - m.executions .decrPtr n start

/-- How many moves left among the first `n` steps leave the cursor where it is. -/
def ignoredMoves (m : Machine) (n : Nat) (start : State) : Nat :=
  (m.executed n start).countP fun u =>
    m.program.opcode? u.ip == some .decrPtr &&
      (m.policy.retreat u.tape).cursor == u.tape.cursor

def shift (m : Machine) (s : State) : Int := ((m.program.opcode? s.ip).map Opcode.shift).getD 0

/-! ### What one step adds -/

theorem Path.walk_succ (hp : m.Path start n u) (hstep : m.step u = .ok t) :
    m.walk start (n + 1) = m.walk start n + m.shift u := by
  unfold walk executions shift
  rw [hp.executed_succ hstep, List.countP_append, List.countP_append, List.countP_singleton,
    List.countP_singleton]
  cases m.program.opcode? u.ip with
  | none => simp
  | some op => cases op <;> simp [Opcode.shift] <;> omega

theorem Path.ignoredMoves_succ (hp : m.Path start n u) (hstep : m.step u = .ok t) :
    m.ignoredMoves (n + 1) start = m.ignoredMoves n start +
      if m.program.opcode? u.ip = some .decrPtr ∧
        (m.policy.retreat u.tape).cursor = u.tape.cursor then 1 else 0 := by
  unfold ignoredMoves
  rw [hp.executed_succ hstep, List.countP_append, List.countP_singleton]
  simp

/-- The cursor after a step. -/
theorem Move.cursor (move : m.Move s t) :
    t.tape.cursor =
      match m.program.opcode? s.ip with
      | some .incrPtr => (s.tape.cursor + 1) % Tape.span
      | some .decrPtr => (m.policy.retreat s.tape).cursor
      | _ => s.tape.cursor := by
  rw [← State.scene_tape, move.scene]
  cases m.program.opcode? s.ip with
  | none => rfl
  | some op =>
      cases op with
      | incrPtr => exact Tape.cursor_advance s.tape
      | read =>
          simp only [Scene.obey, Scene.receive_eq]
          split <;> rfl
      | _ => rfl

/-! ### The strict policy -/

/-- The two moves of the strict policy are moves of a walk modulo the number of positions. -/
theorem Move.cursor_strict (move : m.Move s t) (strict : m.policy = .strict)
    (sound : s.tape.Sound) :
    (t.tape.cursor : Int) = (s.tape.cursor + m.shift s) % Tape.span := by
  have hcursor := sound.cursor
  rw [move.cursor, shift, strict]
  unfold Tape.span at hcursor ⊢
  cases m.program.opcode? s.ip with
  | none =>
      simp only [Option.map_none, Option.getD_none]
      omega
  | some op =>
      simp only [Option.map_some, Option.getD_some]
      cases op with
      | incrPtr =>
          simp only [Opcode.shift]
          omega
      | decrPtr =>
          simp only [Opcode.shift, Policy.retreat, Tape.cursor_retreat, Tape.span]
          split <;> omega
      | _ =>
          simp only [Opcode.shift]
          omega

theorem Path.cursor_strict (hp : m.Path start n s) (strict : m.policy = .strict)
    (valid : m.Valid start) :
    (s.tape.cursor : Int) = (start.tape.cursor + m.walk start n) % Tape.span := by
  induction hp with
  | start =>
      have hcursor : (start.tape.cursor : Int) < Tape.span := Int.ofNat_lt.mpr valid.tape.cursor
      exact (Int.emod_eq_of_lt (Int.natCast_nonneg _) (by simpa using hcursor)).symm
  | @next n u t before hstep ih =>
      have hu := before.valid valid
      have move := move_of_step hu.sheltered hstep
      rw [move.cursor_strict strict hu.tape, ih, before.walk_succ hstep, Int.emod_add_emod,
        Int.add_assoc]

/-! ### The permissive policy -/

theorem isLeast_walk_zero (m : Machine) (start : State) :
    IsLeast (m.walk start '' Set.Iic 0) 0 := by
  refine ⟨⟨0, Nat.le_refl 0, rfl⟩, ?_⟩
  rintro _ ⟨k, hk, rfl⟩
  rw [Nat.le_zero.mp hk]
  exact Int.le_refl 0

theorem isLeast_walk_succ (least : IsLeast (m.walk start '' Set.Iic n) low) :
    IsLeast (m.walk start '' Set.Iic (n + 1)) (min (m.walk start (n + 1)) low) := by
  have hset : Set.Iic (n + 1) = insert (n + 1) (Set.Iic n) := Order.Iic_succ n
  rw [hset, Set.image_insert_eq]
  exact least.insert _

/-- Away from the last position the two moves of the permissive policy are moves of a walk,
except that a move left of the first cell is ignored. -/
theorem Move.cursor_permissive (move : m.Move s t) (lenient : m.policy = .permissive)
    (hlt : s.tape.cursor + 1 < Tape.span) :
    (t.tape.cursor : Int) = max 0 (s.tape.cursor + m.shift s) := by
  rw [move.cursor, shift, lenient]
  cases m.program.opcode? s.ip with
  | none =>
      simp only [Option.map_none, Option.getD_none]
      omega
  | some op =>
      simp only [Option.map_some, Option.getD_some]
      cases op with
      | incrPtr =>
          simp only [Opcode.shift, Nat.mod_eq_of_lt hlt]
          omega
      | decrPtr =>
          simp only [Opcode.shift, Policy.cursor_retreat_permissive]
          omega
      | _ =>
          simp only [Opcode.shift]
          omega

theorem shift_le (m : Machine) (s : State) : m.shift s ≤ 1 := by
  unfold shift
  cases m.program.opcode? s.ip with
  | none => decide
  | some op => cases op <;> decide

theorem shift_of_decrPtr (hop : m.program.opcode? s.ip = some .decrPtr) : m.shift s = -1 := by
  rw [shift, hop]
  rfl

theorem shift_nonneg (hop : m.program.opcode? s.ip ≠ some .decrPtr) : 0 ≤ m.shift s := by
  unfold shift
  cases h : m.program.opcode? s.ip with
  | none => exact Int.le_refl 0
  | some op =>
      cases op with
      | decrPtr => exact (hop h).elim
      | _ => decide

/-- The height of the walk above its lowest point, as long as the walk is too short to come over
the last position of the cursor. -/
theorem Path.cursor_permissive {cells : Nat} {input : List UInt8}
    (hp : m.Path (State.initial cells input) n s) (lenient : m.policy = .permissive)
    (pos : 0 < cells) (short : n < Tape.span) :
    s.tape.cursor ≤ n ∧ ∃ low, IsLeast (m.walk (State.initial cells input) '' Set.Iic n) low ∧
      (s.tape.cursor : Int) = m.walk (State.initial cells input) n - low ∧
      (m.ignoredMoves n (State.initial cells input) : Int) = -low := by
  induction hp with
  | start => exact ⟨Nat.le_refl 0, 0, m.isLeast_walk_zero _, rfl, rfl⟩
  | @next n u t before hstep ih =>
      obtain ⟨hle, low, least, hcursor, hignored⟩ := ih (Nat.lt_of_succ_lt short)
      have hu := before.valid (valid_initial m pos input)
      have move := move_of_step hu.sheltered hstep
      have hwalk := before.walk_succ hstep
      have hmoved := move.cursor_permissive lenient (by omega)
      have hshift := m.shift_le u
      refine ⟨by omega, _, isLeast_walk_succ least, by omega, ?_⟩
      rw [before.ignoredMoves_succ hstep, lenient, Policy.cursor_retreat_permissive]
      by_cases hop : m.program.opcode? u.ip = some .decrPtr
      · have hback := shift_of_decrPtr hop
        simp only [hop, true_and]
        split <;> omega
      · have hforth := shift_nonneg hop
        simp only [hop, false_and, if_false]
        omega

/-- For every program, step size, rule for the end of the input and input, and after any number
of steps: the cursor of a strict run is the walk modulo `2 ^ 32`. The cursor of a permissive run
of less than `2 ^ 32` steps is the height of the walk above the lowest point that it came to, and
the moves left that were ignored are as many as that point lies below zero. -/
theorem cursor_reflects_walk {size : Int} {cells : Nat} (valid : StepSize.ofInt size = .ok cells)
    (m : Machine) (input : List UInt8) (n : Nat) (s : State)
    (hp : m.Path (State.initial cells input) n s) :
    let start := State.initial cells input
    (m.policy = .strict → (s.tape.cursor : Int) = m.walk start n % 0x100000000) ∧
    (m.policy = .permissive → n < 0x100000000 →
      ∃ low, IsLeast (m.walk start '' Set.Iic n) low ∧
        (s.tape.cursor : Int) = m.walk start n - low ∧
        (m.ignoredMoves n start : Int) = -low) := by
  intro start
  have pos : 0 < cells := (StepSize.ofInt_eq_ok_iff.mp valid).2.1
  refine ⟨fun strict => ?_, fun lenient short => (hp.cursor_permissive lenient pos short).2⟩
  have hcursor := hp.cursor_strict strict (valid_initial m pos input)
  have hzero : ((State.initial cells input).tape.cursor : Int) = 0 := rfl
  rw [hzero, Int.zero_add] at hcursor
  exact hcursor

/-- The first two moves of `<<>` are ignored by the permissive policy; the walk has come to -2
then, and ends one above. The strict cursor stands on its last position. -/
theorem cursor_reflects_walk_left_of_first_cell :
    let m : Machine := { program := #[6, 6, 3], policy := .permissive, eof := .zero }
    let m' : Machine := { m with policy := .strict }
    let start := State.initial 1 []
    (∃ s, m.Path start 3 s ∧ IsLeast (m.walk start '' Set.Iic 3) (-2) ∧
      (s.tape.cursor : Int) = m.walk start 3 + 2 ∧ m.ignoredMoves 3 start = 2) ∧
    ∃ s, m'.Path start 3 s ∧ s.tape.cursor = 4294967295 := by
  intro m m' start
  have valid : StepSize.ofInt 1 = .ok 1 := rfl
  obtain ⟨s, hp⟩ : ∃ s, m.Path start 3 s := ⟨_, .next (.next (.next .start rfl) rfl) rfl⟩
  obtain ⟨t, hp'⟩ : ∃ t, m'.Path start 3 t :=
    ⟨_, .next (.next (.next .start rfl) rfl) rfl⟩
  obtain ⟨-, lenient⟩ := cursor_reflects_walk valid m [] 3 s hp
  obtain ⟨strict, -⟩ := cursor_reflects_walk valid m' [] 3 t hp'
  obtain ⟨low, least, hcursor, hignored⟩ := lenient rfl (by decide)
  have htwo : m.ignoredMoves 3 (State.initial 1 []) = 2 := rfl
  have hlow : low = -2 := by omega
  rw [hlow] at least hcursor
  refine ⟨⟨s, hp, least, hcursor, htwo⟩, t, hp', ?_⟩
  have hwalk : m'.walk (State.initial 1 []) 3 = -1 := rfl
  have := strict rfl
  omega

end Machine

end NibTape

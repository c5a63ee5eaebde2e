import NibTape.Machine

/-!
# The scene of a program

Instructions other than brackets work on the scene alone: the tape, the input not read yet
and the output so far. What they do there does not depend on the program, on the position
in it or on the open loops, so it is said once, for every machine that runs them.

A scene knows nothing of faults. Whether an instruction may use its cell is asked before
it is obeyed.
-/

namespace NibTape

/-- Whether an instruction decides where the program goes on. -/
def Opcode.isBracket : Opcode → Bool
  | loopStart | loopEnd => true
  | write | incrVal | incrPtr | decrVal | decrPtr | read => false

/-- Stores a value under the cursor, without asking whether there is a cell. -/
def Tape.set (t : Tape) (v : UInt8) : Tape := { t with written := t.written.insert t.cursor v }

/-- The part of a state that instructions other than brackets work on. -/
structure Scene where
  tape : Tape
  unread : List UInt8
  output : List UInt8

namespace Scene

def cell (w : Scene) : UInt8 := w.tape.value w.tape.cursor

def put (w : Scene) (v : UInt8) : Scene := { w with tape := w.tape.set v }

def receive (eof : EndOfInput) (w : Scene) : Scene :=
  match w.unread with
  | b :: rest => { w with unread := rest }.put b
  | [] =>
    match eof.fill? with
    | some b => w.put b
    | none => w

/-- What an instruction does to a scene; brackets leave it alone. -/
def obey (policy : Policy) (eof : EndOfInput) : Opcode → Scene → Scene
  | .incrPtr, w => { w with tape := w.tape.advance }
  | .decrPtr, w => { w with tape := policy.retreat w.tape }
  | .incrVal, w => w.put (w.cell + 1)
  | .decrVal, w => w.put (w.cell - 1)
  | .write, w => { w with output := w.output ++ [w.cell] }
  | .read, w => w.receive eof
  | .loopStart, w => w
  | .loopEnd, w => w

end Scene

namespace Tape

variable {t : Tape} {v : UInt8}

theorem put?_of_lt (h : t.cursor < t.length) (v : UInt8) : t.put? v = some (t.set v) := by
  simp [put?, h, set]

/-- Storing changes the cell under the cursor and no other, were the tape endless. -/
theorem value_set (t : Tape) (v : UInt8) (i : Nat) :
    (t.set v).value i = if i = t.cursor then v else t.value i := by
  simp only [set, value, Std.TreeMap.getD_insert, Std.LawfulEqCmp.compare_eq_iff_eq]
  exact ite_congr (propext eq_comm) (fun _ => rfl) fun _ => rfl

theorem current?_of_lt (h : t.cursor < t.length) : t.current? = some (t.value t.cursor) := by
  simp [current?, cell?, h]

theorem current?_eq_some_iff :
    t.current? = some v ↔ t.cursor < t.length ∧ t.value t.cursor = v := by
  simp [current?, cell?]

end Tape

namespace Policy

variable {t : Tape}

theorem retreat_permissive :
    permissive.retreat t = if 0 < t.cursor then t.setCursor (t.cursor - 1) else t := rfl

@[simp] theorem cursor_retreat_permissive : (permissive.retreat t).cursor = t.cursor - 1 := by
  rw [retreat_permissive]
  split
  · rfl
  · omega

@[simp] theorem length_retreat (p : Policy) : (p.retreat t).length = t.length := by
  cases p with
  | permissive =>
      rw [retreat_permissive]
      split <;> rfl
  | strict => rfl

@[simp] theorem stepSize_retreat (p : Policy) : (p.retreat t).stepSize = t.stepSize := by
  cases p with
  | permissive =>
      rw [retreat_permissive]
      split <;> rfl
  | strict => rfl

@[simp] theorem value_retreat (p : Policy) (i : Nat) : (p.retreat t).value i = t.value i := by
  cases p with
  | permissive =>
      rw [retreat_permissive]
      split <;> rfl
  | strict => rfl

end Policy

namespace State

variable {s t : State} {w : Scene}

def scene (s : State) : Scene := { tape := s.tape, unread := s.unread, output := s.output }

/-- `t` comes right after `s` and shows the scene `w`. -/
structure Follows (s t : State) (w : Scene) : Prop where
  ip : t.ip = s.ip + 1
  steps : t.steps = s.steps + 1
  loops : t.loops = s.loops
  scene : t.scene = w

@[simp] theorem scene_tape : s.scene.tape = s.tape := rfl
@[simp] theorem scene_unread : s.scene.unread = s.unread := rfl

@[simp] theorem output_emit_wrote (v : UInt8) : (s.emit (.wrote v)).output = s.output ++ [v] := by
  simp [output, events, emit, Event.output]

@[simp] theorem output_emit_flushed : (s.emit .flushed).output = s.output := by
  simp [output, events, emit, Event.output]

@[simp] theorem output_emit_received (b : Option UInt8) :
    (s.emit (.received b)).output = s.output := by
  simp [output, events, emit, Event.output]

@[simp] theorem tape_emit (e : Event) : (s.emit e).tape = s.tape := rfl
@[simp] theorem unread_emit (e : Event) : (s.emit e).unread = s.unread := rfl

@[simp] theorem scene_emit_wrote (v : UInt8) :
    (s.emit (.wrote v)).scene = { s.scene with output := s.output ++ [v] } := by
  simp [scene]

@[simp] theorem scene_emit_flushed : (s.emit .flushed).scene = s.scene := by
  simp [scene]

@[simp] theorem scene_emit_received (b : Option UInt8) :
    (s.emit (.received b)).scene = s.scene := by
  simp [scene]

@[simp] theorem scene_jump (i : Nat) : (s.jump i).scene = s.scene := rfl
@[simp] theorem scene_next : s.next.scene = s.scene := rfl
@[simp] theorem ip_next : s.next.ip = s.ip + 1 := rfl
@[simp] theorem loops_next : s.next.loops = s.loops := rfl

/-- Opening a loop pushes its position; besides, only the record of growths may change. -/
theorem openLoop_eq (s : State) (i : Nat) :
    ∃ growthsRev, s.openLoop i = { s with loops := s.loops.push i, growthsRev } := by
  unfold openLoop
  dsimp only
  split
  · exact ⟨_, rfl⟩
  · exact ⟨_, rfl⟩

@[simp] theorem loops_openLoop (i : Nat) : (s.openLoop i).loops = s.loops.push i := by
  obtain ⟨_, h⟩ := s.openLoop_eq i
  rw [h]

@[simp] theorem ip_openLoop (i : Nat) : (s.openLoop i).ip = s.ip := by
  obtain ⟨_, h⟩ := s.openLoop_eq i
  rw [h]

@[simp] theorem scene_openLoop (i : Nat) : (s.openLoop i).scene = s.scene := by
  obtain ⟨_, h⟩ := s.openLoop_eq i
  rw [h]
  rfl

theorem follows_next : s.Follows s.next s.scene := ⟨rfl, rfl, rfl, rfl⟩

/-- Storing a cell that exists succeeds and changes nothing else of the scene. -/
theorem store_of_lt (h : s.tape.cursor < s.tape.length) (v : UInt8) :
    ∃ t, s.store (s.tape.put? v) = .ok t ∧ s.Follows t (s.scene.put v) := by
  rw [Tape.put?_of_lt h]
  exact ⟨_, rfl, rfl, rfl, rfl, rfl⟩

end State

end NibTape

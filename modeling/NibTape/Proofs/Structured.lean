import NibTape.Proofs.Block

/-!
# Loops as structured while loops

A block has a meaning of its own, without positions, jumps or a stack. A loop asks whether
its cell may be used, is left if the cell is zero, and otherwise runs its body and is
examined again. The interpreter below says this by recursion on the block; its fuel bounds
the depth of the recursion and nothing else, so that a block diverges if no fuel is enough.

The machine does the same for every program with balanced brackets. It comes to the end of
a block in the scene in which the interpreter does, with the loop stack as it was, and it
faults in the scene in which the interpreter is denied its cell. In the other direction the
interpreter ends whenever the machine stops, by induction on the steps the machine makes.
-/

namespace NibTape

/-- How the interpretation of a block ends. -/
inductive Ending where
  /-- The end of the block is reached. -/
  | reached (w : Scene)
  /-- An instruction of the block may not use its cell. -/
  | denied (w : Scene)

/-- Goes on where a block ended, unless it was denied a cell or ran out of fuel. -/
def Ending.andThen (first : Option Ending) (next : Scene → Option Ending) : Option Ending :=
  match first with
  | some (.reached w) => next w
  | some (.denied w) => some (.denied w)
  | none => none

theorem Ending.andThen_eq_some_iff {first : Option Ending} {next : Scene → Option Ending}
    {e : Ending} :
    andThen first next = some e ↔
      (∃ w, first = some (.reached w) ∧ next w = some e) ∨
      (∃ w, first = some (.denied w) ∧ e = .denied w) := by
  obtain _ | w | w := first <;> simp [andThen, eq_comm]

namespace Scene

/-- Whether a policy objects to the use of the cell under the cursor. -/
def denies (policy : Policy) (w : Scene) : Bool :=
  policy == .strict && decide (w.tape.length ≤ w.tape.cursor)

def follow (policy : Policy) (eof : EndOfInput) (b : UInt8) (w : Scene) : Ending :=
  match Opcode.ofByte? b with
  | none => .reached w
  | some op =>
    if op.usesCell && w.denies policy then .denied w else .reached (w.obey policy eof op)

end Scene

/-- Runs a block from a scene; `none` if the fuel is used up first. -/
def Block.interpret (policy : Policy) (eof : EndOfInput) :
    (fuel : Nat) → Block → Scene → Option Ending
  | 0, _, _ => none
  | _ + 1, done, w => some (.reached w)
  | fuel + 1, plain b _ rest, w =>
    Ending.andThen (some (w.follow policy eof b)) (interpret policy eof fuel rest)
  | fuel + 1, loop body rest, w =>
    if w.denies policy then some (.denied w)
    else if w.cell = 0 then interpret policy eof fuel rest w
    else
      Ending.andThen (interpret policy eof fuel body w)
        (interpret policy eof fuel (loop body rest))

namespace Block

variable {policy : Policy} {eof : EndOfInput} {block body rest : Block} {w : Scene}
variable {fuel more : Nat} {e : Ending}

theorem interpret_denied (hden : w.denies policy = true) :
    (loop body rest).interpret policy eof (fuel + 1) w = some (.denied w) := by
  simp only [interpret, hden, if_true]

theorem interpret_leave (hden : w.denies policy = false) (hcell : w.cell = 0) :
    (loop body rest).interpret policy eof (fuel + 1) w = rest.interpret policy eof fuel w := by
  simp only [interpret, hden, Bool.false_eq_true, if_false, hcell, if_true]

/-- A loop whose cell is not zero is its body followed by the same loop. -/
theorem interpret_again (hden : w.denies policy = false) (hcell : w.cell ≠ 0) :
    (loop body rest).interpret policy eof (fuel + 1) w =
      Ending.andThen (body.interpret policy eof fuel w)
        ((loop body rest).interpret policy eof fuel) := by
  simp only [interpret, hden, Bool.false_eq_true, if_false, hcell]

theorem interpret_succ (h : block.interpret policy eof fuel w = some e) :
    block.interpret policy eof (fuel + 1) w = some e := by
  induction fuel generalizing block w e with
  | zero => simp [interpret] at h
  | succ fuel ih =>
      cases block with
      | done => exact h
      | plain b hplain rest =>
          rw [interpret] at h
          obtain ⟨w', hfollow, h⟩ | hdenied := Ending.andThen_eq_some_iff.mp h
          · exact Ending.andThen_eq_some_iff.mpr (.inl ⟨w', hfollow, ih h⟩)
          · exact Ending.andThen_eq_some_iff.mpr (.inr hdenied)
      | loop body rest =>
          cases hden : w.denies policy with
          | true =>
              rw [interpret_denied hden] at h ⊢
              exact h
          | false =>
              by_cases hcell : w.cell = 0
              · rw [interpret_leave hden hcell] at h ⊢
                exact ih h
              · rw [interpret_again hden hcell] at h ⊢
                obtain ⟨w', hbody, h⟩ | ⟨w', hbody, rfl⟩ := Ending.andThen_eq_some_iff.mp h
                · exact Ending.andThen_eq_some_iff.mpr (.inl ⟨w', ih hbody, ih h⟩)
                · exact Ending.andThen_eq_some_iff.mpr (.inr ⟨w', ih hbody, rfl⟩)

/-- More fuel changes no ending. -/
theorem interpret_mono (h : block.interpret policy eof fuel w = some e) (hle : fuel ≤ more) :
    block.interpret policy eof more w = some e := by
  induction hle with
  | refl => exact h
  | step _ ih => exact interpret_succ ih

end Block

namespace LoopStack

variable {α : Type} {l : LoopStack α} {a : α} {below : List α}

theorem pop?_of_toList (h : l.toList = below ++ [a]) :
    ∃ rest, l.pop? = some (a, rest) ∧ rest.toList = below := by
  cases hpop : l.pop? with
  | none =>
      rw [(pop?_eq_none_iff l).mp hpop] at h
      simp at h
  | some popped =>
      obtain ⟨b, rest⟩ := popped
      rw [(pop?_eq_some hpop).1] at h
      obtain ⟨hrest, hb⟩ := List.append_inj' h rfl
      simp only [List.cons.injEq, and_true] at hb
      exact ⟨rest, by rw [hb], hrest⟩

end LoopStack

namespace Machine

variable {m : Machine} {s t u : State} {w : Scene} {op : Opcode} {b : UInt8}
variable {body rest block : Block} {e : Ending} {fuel n k j stop : Nat} {loops : List Nat}

theorem denies_eq_true_iff :
    s.scene.denies m.policy = true ↔
      m.policy = .strict ∧ s.tape.length ≤ s.tape.cursor := by
  rw [Scene.denies, Bool.and_eq_true, beq_iff_eq, decide_eq_true_eq]
  rfl

theorem cursor_lt_of_not_denies (valid : m.Valid s) (hden : s.scene.denies m.policy = false) :
    s.tape.cursor < s.tape.length := by
  cases hp : m.policy with
  | permissive => exact valid.sheltered hp
  | strict =>
      apply Nat.lt_of_not_le
      intro outside
      rw [denies_eq_true_iff.mpr ⟨hp, outside⟩] at hden
      cases hden

theorem step_of_denies (hop : m.program.opcode? s.ip = some op) (uses : op.usesCell = true)
    (hden : s.scene.denies m.policy = true) :
    m.step s = .error ⟨.outOfBounds s.ip s.scene.tape.cursor s.scene.tape.length, s⟩ := by
  obtain ⟨strict, outside⟩ := denies_eq_true_iff.mp hden
  exact step_denied hop (denied?_eq_some_iff.mpr ⟨uses, strict, outside, rfl⟩)

/-- A plain byte that may use its cell makes a step with the effect it has in a block. -/
theorem step_of_follow (valid : m.Valid s) (hb : m.program[s.ip]? = some b)
    (hplain : isPlain b = true) (h : s.scene.follow m.policy m.eof b = .reached w) :
    ∃ u, m.step s = .ok u ∧ s.Follows u w := by
  have hop := Program.opcode?_eq_of_getElem? hb
  unfold Scene.follow at h
  split at h
  · rename_i hinert
    cases h
    have hlt := (Array.getElem?_eq_some_iff.mp hb).1
    exact ⟨_, step_inert hlt (hop.trans hinert), State.follows_next⟩
  · rename_i op hbyte
    split at h
    · cases h
    · rename_i hallowed
      cases h
      have housed : op.usesCell = true → s.tape.cursor < s.tape.length := by
        intro uses
        apply cursor_lt_of_not_denies valid
        simpa [uses] using hallowed
      exact step_simple (hop.trans hbyte) (isPlain_iff.mp hplain op hbyte) housed

/-- The machine does what an ending says: from `s` it comes to the position `stop` with the
given loops open, or to a state in which its next access is out of bounds. -/
def Arrives (m : Machine) (s : State) (stop : Nat) (loops : List Nat) : Ending → Prop
  | .reached w => ∃ k t, m.Path s k t ∧ t.ip = stop ∧ t.loops.toList = loops ∧ t.scene = w
  | .denied w => ∃ k t, m.Path s k t ∧ t.scene = w ∧
      m.step t = .error ⟨.outOfBounds t.ip w.tape.cursor w.tape.length, t⟩

theorem Arrives.after (hp : m.Path s k u) (h : m.Arrives u stop loops e) :
    m.Arrives s stop loops e := by
  cases e with
  | reached w =>
      obtain ⟨j, t, hq, hstop, hloops, hscene⟩ := h
      exact ⟨k + j, t, hp.append hq, hstop, hloops, hscene⟩
  | denied w =>
      obtain ⟨j, t, hq, hscene, hfault⟩ := h
      exact ⟨k + j, t, hp.append hq, hscene, hfault⟩

/-! ### The machine inside a block -/

/-- The machine is about to run a block: in a valid state, at the text of the block. -/
structure Ready (m : Machine) (s : State) (block : Block) : Prop where
  valid : m.Valid s
  text : m.program.Holds s.ip block.bytes

namespace Ready

theorem step_plain {hplain : isPlain b = true} (ready : m.Ready s (.plain b hplain rest))
    (h : s.scene.follow m.policy m.eof b = .reached w) :
    ∃ u, m.step s = .ok u ∧ s.Follows u w ∧ m.Ready u rest := by
  obtain ⟨u, hstep, follows⟩ := step_of_follow ready.valid ready.text.head hplain h
  refine ⟨u, hstep, follows, ready.valid.step hstep, ?_⟩
  rw [follows.ip]
  exact ready.text.tail

/-- A plain byte that may not use its cell faults and leaves the scene alone. -/
theorem step_refused {hplain : isPlain b = true} (ready : m.Ready s (.plain b hplain rest))
    (h : s.scene.follow m.policy m.eof b = .denied w) :
    s.scene = w ∧ m.step s = .error ⟨.outOfBounds s.ip w.tape.cursor w.tape.length, s⟩ := by
  have hop := Program.opcode?_eq_of_getElem? ready.text.head
  unfold Scene.follow at h
  split at h
  · cases h
  · rename_i op hbyte
    split at h
    · rename_i hrefused
      cases h
      rw [Bool.and_eq_true] at hrefused
      exact ⟨rfl, step_of_denies (hop.trans hbyte) hrefused.1 hrefused.2⟩
    · cases h

/-- A loop whose cell is zero is left. -/
theorem step_leave (ready : m.Ready s (.loop body rest))
    (hden : s.scene.denies m.policy = false) (hcell : s.scene.cell = 0) :
    ∃ u, m.step s = .ok u ∧ u.ip = s.ip + 1 + body.bytes.length + 1 ∧
      u.loops.toList = s.loops.toList ∧ u.scene = s.scene ∧ m.Ready u rest := by
  have hcurrent := Tape.current?_of_lt (cursor_lt_of_not_denies ready.valid hden)
  have hzero : s.tape.current? = some 0 := hcurrent.trans (congrArg some hcell)
  have hstep := step_skip ready.text.opcode? hzero (Program.loopEnd?_of_holds ready.text)
  exact ⟨_, hstep, rfl, rfl, rfl, ready.valid.step hstep, ready.text.tail.right.tail⟩

/-- A loop whose cell is not zero is entered. -/
theorem step_into (ready : m.Ready s (.loop body rest))
    (hden : s.scene.denies m.policy = false) (hcell : s.scene.cell ≠ 0) :
    ∃ u, m.step s = .ok u ∧ u.ip = s.ip + 1 ∧
      u.loops.toList = s.loops.toList ++ [s.ip] ∧ u.scene = s.scene ∧ m.Ready u body := by
  have hcurrent := Tape.current?_of_lt (cursor_lt_of_not_denies ready.valid hden)
  have hstep := step_enter ready.text.opcode? hcurrent hcell
  have hip : (s.openLoop s.ip).next.ip = s.ip + 1 := by
    rw [State.ip_next, State.ip_openLoop]
  refine ⟨_, hstep, hip, ?_, ?_, ready.valid.step hstep, ?_⟩
  · rw [State.loops_next, State.loops_openLoop, LoopStack.toList_push]
  · rw [State.scene_next, State.scene_openLoop]
  · rw [hip]
    exact ready.text.tail.left

/-- From the end of its body the machine goes back to the start of the loop, with the loops
open that were open there before. -/
theorem path_back (ready : m.Ready s (.loop body rest)) (inside : m.Valid u)
    (h : m.Arrives u (s.ip + 1 + body.bytes.length) (s.loops.toList ++ [s.ip]) (.reached w)) :
    ∃ k v, m.Path u k v ∧ v.ip = s.ip ∧ v.loops.toList = s.loops.toList ∧ v.scene = w ∧
      m.Ready v (.loop body rest) := by
  obtain ⟨k, t, hp, hstop, hloops, hscene⟩ := h
  have hop : m.program.opcode? t.ip = some .loopEnd := by
    rw [hstop]
    exact ready.text.tail.right.opcode?
  obtain ⟨below, hpop, hbelow⟩ := LoopStack.pop?_of_toList hloops
  have hpath := hp.next (step_back hop hpop)
  exact ⟨k + 1, _, hpath, rfl, hbelow, hscene, hpath.valid inside, ready.text⟩

end Ready

/-- What the interpreter finds for a block, the machine does where the block stands. The
induction is on the fuel, since a further round of a loop runs the same block again. -/
theorem arrives_of_interpret (h : block.interpret m.policy m.eof fuel s.scene = some e)
    (ready : m.Ready s block) :
    m.Arrives s (s.ip + block.bytes.length) s.loops.toList e := by
  induction fuel generalizing block s e with
  | zero => simp [Block.interpret] at h
  | succ fuel ih =>
      cases block with
      | done =>
          cases h
          exact ⟨0, s, .start, rfl, rfl, rfl⟩
      | plain b hplain rest =>
          rw [Block.interpret] at h
          obtain ⟨w, hfollow, h⟩ | ⟨w, hfollow, rfl⟩ := Ending.andThen_eq_some_iff.mp h
          · obtain ⟨u, hstep, follows, hrest⟩ := ready.step_plain (Option.some.inj hfollow)
            rw [← follows.scene] at h
            have harrives := ih h hrest
            rw [follows.ip, follows.loops] at harrives
            rw [Block.length_plain, ← Nat.add_assoc]
            exact harrives.after (.single hstep)
          · obtain ⟨hscene, hfault⟩ := ready.step_refused (Option.some.inj hfollow)
            exact ⟨0, s, .start, hscene, hfault⟩
      | loop body rest =>
          cases hden : s.scene.denies m.policy with
          | true =>
              rw [Block.interpret_denied hden] at h
              cases h
              exact ⟨0, s, .start, rfl, step_of_denies ready.text.opcode? rfl hden⟩
          | false =>
              by_cases hcell : s.scene.cell = 0
              · obtain ⟨u, hstep, hip, hloops, hscene, hrest⟩ := ready.step_leave hden hcell
                rw [Block.interpret_leave hden hcell, ← hscene] at h
                have harrives := ih h hrest
                rw [hip, hloops] at harrives
                simp only [Block.length_loop, ← Nat.add_assoc]
                exact harrives.after (.single hstep)
              · obtain ⟨u, hstep, hip, hloops, hscene, hbody⟩ := ready.step_into hden hcell
                rw [Block.interpret_again hden hcell, ← hscene] at h
                obtain ⟨w, hw, h⟩ | ⟨w, hw, rfl⟩ := Ending.andThen_eq_some_iff.mp h
                · have hround := ih hw hbody
                  rw [hip, hloops] at hround
                  obtain ⟨k, v, hp, hvip, hvloops, hvscene, hloop⟩ :=
                    ready.path_back hbody.valid hround
                  rw [← hvscene] at h
                  have harrives := ih h hloop
                  rw [hvip, hvloops] at harrives
                  exact (harrives.after hp).after (.single hstep)
                · exact Arrives.after (.single hstep) (ih hw hbody)

/-! ### The interpreter on a machine that stops -/

/-- The execution from a state comes to a fault, or past the end, within `n` steps. -/
def Stops (m : Machine) (n : Nat) (s : State) : Prop :=
  ∃ k ≤ n, ∃ t h, m.Path s k t ∧ m.step t = .error h

theorem Stops.along (h : m.Stops n s) (hp : m.Path s k u) : k ≤ n ∧ m.Stops (n - k) u := by
  obtain ⟨j, hj, t, g, hq, hfault⟩ := h
  have hkj := hq.le_of_fault hfault hp
  exact ⟨by omega, j - k, by omega, t, g, hp.drop hq hkj, hfault⟩

/-- Where the machine stops, the interpreter does, by induction on the steps that the machine
has left: every part of a block and every further round of a loop uses up at least one. -/
theorem interpret_of_stops (stops : m.Stops n s) (ready : m.Ready s block) :
    ∃ fuel e, block.interpret m.policy m.eof fuel s.scene = some e := by
  induction n using Nat.strongRecOn generalizing block s with
  | ind n ih =>
      cases block with
      | done => exact ⟨1, .reached s.scene, rfl⟩
      | plain b hplain rest =>
          cases hfollow : s.scene.follow m.policy m.eof b with
          | denied w =>
              exact ⟨1, .denied w, by rw [Block.interpret, hfollow]; rfl⟩
          | reached w =>
              obtain ⟨u, hstep, follows, hrest⟩ := ready.step_plain hfollow
              obtain ⟨hpos, hstops⟩ := stops.along (.single hstep)
              obtain ⟨fuel, e, he⟩ := ih (n - 1) (by omega) hstops hrest
              rw [follows.scene] at he
              exact ⟨fuel + 1, e, by rw [Block.interpret, hfollow]; exact he⟩
      | loop body rest =>
          cases hden : s.scene.denies m.policy with
          | true => exact ⟨1, _, Block.interpret_denied hden⟩
          | false =>
              by_cases hcell : s.scene.cell = 0
              · obtain ⟨u, hstep, -, -, hscene, hrest⟩ := ready.step_leave hden hcell
                obtain ⟨hpos, hstops⟩ := stops.along (.single hstep)
                obtain ⟨fuel, e, he⟩ := ih (n - 1) (by omega) hstops hrest
                rw [hscene] at he
                exact ⟨fuel + 1, e, (Block.interpret_leave hden hcell).trans he⟩
              · obtain ⟨u, hstep, hip, hloops, hscene, hbody⟩ := ready.step_into hden hcell
                obtain ⟨hpos, hinside⟩ := stops.along (.single hstep)
                obtain ⟨fuel, e, he⟩ := ih (n - 1) (by omega) hinside hbody
                cases e with
                | denied w =>
                    rw [hscene] at he
                    refine ⟨fuel + 1, .denied w, ?_⟩
                    rw [Block.interpret_again hden hcell, he]
                    rfl
                | reached w =>
                    have hround := arrives_of_interpret he hbody
                    rw [hip, hloops] at hround
                    obtain ⟨k, v, hp, -, -, hvscene, hloop⟩ :=
                      ready.path_back hbody.valid hround
                    obtain ⟨hk, hagain⟩ := hinside.along hp
                    obtain ⟨more, e, hmore⟩ := ih (n - 1 - k) (by omega) hagain hloop
                    rw [hscene] at he
                    rw [hvscene] at hmore
                    refine ⟨max fuel more + 1, e, ?_⟩
                    rw [Block.interpret_again hden hcell,
                      Block.interpret_mono he (Nat.le_max_left fuel more)]
                    exact Block.interpret_mono hmore (Nat.le_max_right fuel more)

/-! ### Whole programs -/

/-- What an ending of the whole program says of the state in which the machine stops. -/
def Shows (m : Machine) (u : State) : Ending → Prop
  | .reached w => m.finished u = true ∧ u.scene = w
  | .denied w =>
    m.step u = .error ⟨.outOfBounds u.ip w.tape.cursor w.tape.length, u⟩ ∧ u.scene = w

theorem Shows.fault (h : m.Shows u e) : ∃ g, m.step u = .error g := by
  cases e with
  | reached w => exact ⟨_, step_of_finished h.1⟩
  | denied w => exact ⟨_, h.1⟩

theorem Shows.unique {e' : Ending} (h : m.Shows u e) (h' : m.Shows u e') : e = e' := by
  cases e with
  | reached w =>
      cases e' with
      | reached w' => rw [← h.2, ← h'.2]
      | denied w' =>
          have hfault := h'.1
          rw [step_of_finished h.1] at hfault
          cases hfault
  | denied w =>
      cases e' with
      | reached w' =>
          have hfault := h.1
          rw [step_of_finished h'.1] at hfault
          cases hfault
      | denied w' => rw [← h.2, ← h'.2]

theorem ready_of_bytes (valid : m.Valid s) (hip : s.ip = 0)
    (htext : block.bytes = m.program.toList) : m.Ready s block := by
  refine ⟨valid, ?_⟩
  rw [hip, htext]
  exact m.program.holds_zero

/-- The machine stops as an ending says exactly if the interpreter has that ending. -/
theorem shows_iff_interpret (valid : m.Valid s) (hip : s.ip = 0)
    (htext : block.bytes = m.program.toList) :
    (∃ n u, m.Path s n u ∧ m.Shows u e) ↔
      ∃ fuel, block.interpret m.policy m.eof fuel s.scene = some e := by
  have ready : m.Ready s block := ready_of_bytes valid hip htext
  have shown : ∀ {fuel e}, block.interpret m.policy m.eof fuel s.scene = some e →
      ∃ n u, m.Path s n u ∧ m.Shows u e := by
    intro fuel e h
    have harrives := arrives_of_interpret h ready
    cases e with
    | reached w =>
        obtain ⟨k, u, hp, hstop, -, hscene⟩ := harrives
        have hend : m.program.size ≤ u.ip := by
          rw [hstop, hip, htext, Array.length_toList]
          omega
        exact ⟨k, u, hp, finished_iff.mpr hend, hscene⟩
    | denied w =>
        obtain ⟨k, u, hp, hscene, hfault⟩ := harrives
        exact ⟨k, u, hp, hfault, hscene⟩
  constructor
  · rintro ⟨n, u, hp, hu⟩
    obtain ⟨g, hg⟩ := hu.fault
    obtain ⟨fuel, e', he'⟩ := interpret_of_stops ⟨n, Nat.le_refl n, u, g, hp, hg⟩ ready
    obtain ⟨k, u', hq, hu'⟩ := shown he'
    obtain ⟨g', hg'⟩ := hu'.fault
    rw [← hp.fault_unique hg hq hg'] at hu'
    rw [hu.unique hu']
    exact ⟨fuel, he'⟩
  · rintro ⟨fuel, h⟩
    exact shown h

/-- A run completes in a scene exactly if the machine comes to the end in it. -/
theorem completes_iff_shows :
    (∃ fuel t, m.runToEnd? fuel s = some (.ok t) ∧ t.scene = w) ↔
      ∃ n u, m.Path s n u ∧ m.Shows u (.reached w) := by
  constructor
  · rintro ⟨fuel, t, hrun, hscene⟩
    obtain ⟨n, u, hp, hend, rfl⟩ := runToEnd?_eq_ok_iff.mp ⟨fuel, hrun⟩
    rw [State.scene_emit_flushed] at hscene
    exact ⟨n, u, hp, hend, hscene⟩
  · rintro ⟨n, u, hp, hend, hscene⟩
    obtain ⟨fuel, hrun⟩ := runToEnd?_eq_ok_iff.mpr ⟨n, u, hp, hend, rfl⟩
    exact ⟨fuel, _, hrun, by rw [State.scene_emit_flushed]; exact hscene⟩

/-- A run faults on an access in a scene exactly if the machine comes to that access in it. -/
theorem faults_iff_shows (valid : m.Valid s) :
    (∃ fuel h, m.runToEnd? fuel s = some (.error h) ∧ h.state.scene = w ∧
        h.fault = .outOfBounds h.state.ip w.tape.cursor w.tape.length) ↔
      ∃ n u, m.Path s n u ∧ m.Shows u (.denied w) := by
  constructor
  · rintro ⟨fuel, h, hrun, hscene, hfault⟩
    obtain ⟨n, u, g, hp, -, hstep, rfl⟩ := runToEnd?_eq_error_iff.mp ⟨fuel, hrun⟩
    obtain ⟨hstate, -⟩ := fails_of_step (hp.valid valid).sheltered hstep
    obtain ⟨fault, state⟩ := g
    dsimp only at hstate hscene hfault
    subst hstate
    rw [State.scene_emit_flushed] at hscene
    rw [hfault] at hstep
    exact ⟨n, state, hp, hstep, hscene⟩
  · rintro ⟨n, u, hp, hstep, hscene⟩
    have hunfinished : m.finished u = false := by
      rw [Bool.eq_false_iff]
      intro hend
      rw [step_of_finished hend] at hstep
      cases hstep
    obtain ⟨fuel, hrun⟩ := runToEnd?_eq_error_iff.mpr ⟨n, u, _, hp, hunfinished, hstep, rfl⟩
    exact ⟨fuel, _, hrun, by rw [State.scene_emit_flushed]; exact hscene, rfl⟩

/-- The machine runs forever exactly if no fuel is enough for the interpreter. -/
theorem diverges_iff (valid : m.Valid s) (hip : s.ip = 0)
    (htext : block.bytes = m.program.toList) :
    (∀ fuel, m.runToEnd? fuel s = none) ↔
      ∀ fuel, block.interpret m.policy m.eof fuel s.scene = none := by
  have ready : m.Ready s block := ready_of_bytes valid hip htext
  constructor
  · intro forever fuel
    rw [Option.eq_none_iff_forall_ne_some]
    intro e he
    obtain ⟨n, u, hp, hu⟩ := (shows_iff_interpret valid hip htext).mpr ⟨fuel, he⟩
    cases e with
    | reached w =>
        obtain ⟨fuel, t, hrun, -⟩ := completes_iff_shows.mpr ⟨n, u, hp, hu⟩
        rw [forever] at hrun
        cases hrun
    | denied w =>
        obtain ⟨fuel, h, hrun, -⟩ := (faults_iff_shows valid).mpr ⟨n, u, hp, hu⟩
        rw [forever] at hrun
        cases hrun
  · intro forever fuel
    rw [Option.eq_none_iff_forall_ne_some]
    intro r hrun
    have stops : ∃ n, m.Stops n s := by
      cases r with
      | ok t =>
          obtain ⟨n, u, hp, hend, -⟩ := runToEnd?_eq_ok_iff.mp ⟨fuel, hrun⟩
          exact ⟨n, n, Nat.le_refl n, u, _, hp, step_of_finished hend⟩
      | error h =>
          obtain ⟨n, u, g, hp, -, hstep, -⟩ := runToEnd?_eq_error_iff.mp ⟨fuel, hrun⟩
          exact ⟨n, n, Nat.le_refl n, u, g, hp, hstep⟩
    obtain ⟨n, stops⟩ := stops
    obtain ⟨more, e, he⟩ := interpret_of_stops stops ready
    rw [forever] at he
    cases he

end Machine

/-- A program with balanced brackets is read as a block, and the machine runs it as the
interpreter runs the block: without a budget it completes in the same scenes, it faults on an
access in the same scenes, and it runs forever in the same cases. -/
theorem machine_implements_blocks {size : Int} {cells : Nat}
    (valid : StepSize.ofInt size = .ok cells) (m : Machine) (balanced : m.program.Balanced)
    (input : List UInt8) :
    let start := State.initial cells input
    ∃ block, Block.parse? m.program = some block ∧ block.bytes = m.program.toList ∧
      (∀ w, (∃ fuel t, m.run? fuel none start = some (.ok t) ∧ t.scene = w) ↔
        ∃ fuel, block.interpret m.policy m.eof fuel start.scene = some (.reached w)) ∧
      (∀ w, (∃ fuel h, m.run? fuel none start = some (.error h) ∧ h.state.scene = w ∧
          h.fault = .outOfBounds h.state.ip w.tape.cursor w.tape.length) ↔
        ∃ fuel, block.interpret m.policy m.eof fuel start.scene = some (.denied w)) ∧
      ((∀ fuel, m.run? fuel none start = none) ↔
        ∀ fuel, block.interpret m.policy m.eof fuel start.scene = none) := by
  intro start
  have pos : 0 < cells := (StepSize.ofInt_eq_ok_iff.mp valid).2.1
  have hstart : m.Valid start := Machine.valid_initial m pos input
  obtain ⟨block, hparse⟩ := Block.exists_parse? balanced
  have htext := Block.bytes_of_parse? hparse
  refine ⟨block, hparse, htext, ?_, ?_, Machine.diverges_iff hstart rfl htext⟩
  · intro w
    exact Machine.completes_iff_shows.trans (Machine.shows_iff_interpret hstart rfl htext)
  · intro w
    exact (Machine.faults_iff_shows hstart).trans
      (Machine.shows_iff_interpret hstart rfl htext)

/-- The program `++[>+[-]<-]` is a loop in a loop. The machine completes it with the cursor
back on the first of two cells, since the interpreter does. -/
theorem nested_loops_complete :
    let m : Machine :=
      { program := #[2, 2, 4, 3, 2, 4, 5, 1, 6, 5, 1], policy := .strict, eof := .unchanged }
    m.program.Balanced ∧
    ∃ fuel t, m.run? fuel none (State.initial 1 []) = some (.ok t) ∧
      t.scene.tape.length = 2 ∧ t.scene.tape.cursor = 0 := by
  intro m
  have valid : StepSize.ofInt 1 = .ok 1 := rfl
  have balanced : m.program.Balanced := by decide
  obtain ⟨block, hparse, -, completes, -, -⟩ := machine_implements_blocks valid m balanced []
  let inner : Block := .plain 2 rfl (.loop (.plain 5 rfl .done) (.plain 6 rfl (.plain 5 rfl .done)))
  let outer : Block := .plain 2 rfl (.plain 2 rfl (.loop (.plain 3 rfl inner) .done))
  have hblock : Block.parse? m.program = some outer := rfl
  rw [hblock, Option.some.injEq] at hparse
  obtain ⟨w, hw, hlength, hcursor⟩ : ∃ w,
      outer.interpret .strict .unchanged 12 (State.initial 1 []).scene = some (.reached w) ∧
      w.tape.length = 2 ∧ w.tape.cursor = 0 := ⟨_, rfl, rfl, rfl⟩
  rw [hparse] at hw
  obtain ⟨fuel, t, hrun, hscene⟩ := (completes w).mpr ⟨12, hw⟩
  rw [← hscene] at hlength hcursor
  exact ⟨balanced, fuel, t, hrun, hlength, hcursor⟩

end NibTape

import NibTape.Proofs.Nesting

/-!
# Programs as trees

A block is a sequence of plain bytes and loops, and the body of a loop is a block again.
Written out, a block is a program text in which every bracket has its partner.

A text is read from its end. What is kept is the block up to the next loop end that has no
start yet, and the blocks that follow each of those ends; a loop start takes the first of
them. Every text with balanced brackets is read in this way, and the block that comes out,
written out again, is the text itself.
-/

namespace NibTape

def isPlain (b : UInt8) : Bool := (Opcode.ofByte? b).all fun op => !op.isBracket

/-- A sequence of plain bytes and loops. -/
inductive Block where
  | done
  | plain (b : UInt8) (h : isPlain b = true) (rest : Block)
  | loop (body rest : Block)

namespace Block

def bytes : Block → List UInt8
  | done => []
  | plain b _ rest => b :: rest.bytes
  | loop body rest => Opcode.loopStart.byte :: (body.bytes ++ Opcode.loopEnd.byte :: rest.bytes)

/-- Reads a text from its end: the block up to the first loop end that no loop start of the
text opens, and the blocks after that one and each further such end. -/
def parseFrom : List UInt8 → Option (Block × List Block)
  | [] => some (done, [])
  | b :: rest =>
    match parseFrom rest with
    | none => none
    | some (code, after) =>
      if h : isPlain b = true then some (plain b h code, after)
      else if b = Opcode.loopEnd.byte then some (done, code :: after)
      else
        match after with
        | next :: after => some (loop code next, after)
        | [] => none

/-- The block that a program text spells, if its brackets are balanced. -/
def parse? (p : Program) : Option Block :=
  match parseFrom p.toList with
  | some (code, []) => some code
  | _ => none

end Block

/-- No part from the beginning has more loop ends than loop starts, and the whole has equally
many. -/
def Program.Balanced (p : Program) : Prop :=
  (∀ k ≤ p.size, (p.toList.take k).count Opcode.loopEnd.byte ≤
    (p.toList.take k).count Opcode.loopStart.byte) ∧
  p.toList.count Opcode.loopStart.byte = p.toList.count Opcode.loopEnd.byte

instance (p : Program) : Decidable p.Balanced := inferInstanceAs (Decidable (_ ∧ _))

/-- A text that stands in a program at a position. -/
def Program.Holds (p : Program) (i : Nat) (text : List UInt8) : Prop := text <+: p.toList.drop i

theorem isPlain_iff {b : UInt8} :
    isPlain b = true ↔ ∀ op, Opcode.ofByte? b = some op → op.isBracket = false := by
  cases h : Opcode.ofByte? b <;> simp [isPlain, h]

/-- A byte that is not plain is one of the two brackets. -/
theorem bracket_of_not_plain {b : UInt8} (h : ¬ isPlain b = true) :
    b = Opcode.loopStart.byte ∨ b = Opcode.loopEnd.byte := by
  cases hop : Opcode.ofByte? b with
  | none => simp [isPlain, hop] at h
  | some op =>
      have hb := Opcode.byte_of_ofByte? hop
      cases op with
      | loopStart => exact .inl hb
      | loopEnd => exact .inr hb
      | _ => simp [isPlain, hop, Opcode.isBracket] at h

@[simp] theorem not_plain_loopEnd : isPlain Opcode.loopEnd.byte = false := rfl
@[simp] theorem not_plain_loopStart : isPlain Opcode.loopStart.byte = false := rfl

theorem ne_bracket_of_plain {b : UInt8} (h : isPlain b = true) :
    b ≠ Opcode.loopStart.byte ∧ b ≠ Opcode.loopEnd.byte := by
  constructor
  · rintro rfl
    simp at h
  · rintro rfl
    simp at h

namespace Block

theorem length_plain {b : UInt8} {h : isPlain b = true} {rest : Block} :
    (plain b h rest).bytes.length = 1 + rest.bytes.length := by
  rw [bytes, List.length_cons, Nat.add_comm]

theorem length_loop {body rest : Block} :
    (loop body rest).bytes.length = 1 + body.bytes.length + 1 + rest.bytes.length := by
  simp only [bytes, List.length_cons, List.length_append]
  omega

/-- Reading loses nothing: written out, the parts are the text. -/
theorem bytes_of_parseFrom {text : List UInt8} {code : Block} {after : List Block}
    (h : parseFrom text = some (code, after)) :
    text = code.bytes ++ after.flatMap fun block => Opcode.loopEnd.byte :: block.bytes := by
  induction text generalizing code after with
  | nil =>
      simp only [parseFrom, Option.some.injEq, Prod.mk.injEq] at h
      obtain ⟨rfl, rfl⟩ := h
      rfl
  | cons b rest ih =>
      simp only [parseFrom] at h
      split at h
      · cases h
      · rename_i code' after' hrest
        have htext := ih hrest
        split at h
        · cases h
          rw [htext]
          rfl
        · rename_i hplain
          split at h
          · rename_i hend
            cases h
            rw [htext, hend]
            rfl
          · rename_i hend
            have hb := (bracket_of_not_plain hplain).resolve_right hend
            split at h
            · cases h
              rw [htext, hb]
              simp [bytes]
            · cases h

theorem bytes_of_parse? {p : Program} {block : Block} (h : parse? p = some block) :
    block.bytes = p.toList := by
  unfold parse? at h
  split at h
  · rename_i code hcode
    cases h
    simpa using (bytes_of_parseFrom hcode).symm
  · cases h

/-- A text no end part of which has more loop starts than loop ends is read, and leaves one
block for each loop end to spare. -/
theorem exists_parseFrom {text : List UInt8}
    (h : ∀ part, part <:+ text → part.count Opcode.loopStart.byte ≤
      part.count Opcode.loopEnd.byte) :
    ∃ code after, parseFrom text = some (code, after) ∧
      after.length + text.count Opcode.loopStart.byte = text.count Opcode.loopEnd.byte := by
  induction text with
  | nil => exact ⟨done, [], rfl, rfl⟩
  | cons b rest ih =>
      obtain ⟨code, after, hrest, hlength⟩ :=
        ih fun part hpart => h part (hpart.trans (List.suffix_cons b rest))
      by_cases hplain : isPlain b = true
      · obtain ⟨hs, he⟩ := ne_bracket_of_plain hplain
        refine ⟨plain b hplain code, after, by simp [parseFrom, hrest, hplain], ?_⟩
        rw [List.count_cons_of_ne hs, List.count_cons_of_ne he]
        exact hlength
      · obtain rfl | rfl := bracket_of_not_plain hplain
        · -- the whole text has an end for this start, so a block is at hand
          have hwhole := h _ (List.suffix_refl _)
          have hne : Opcode.loopStart.byte ≠ Opcode.loopEnd.byte := by decide
          rw [List.count_cons_self, List.count_cons_of_ne hne] at hwhole ⊢
          cases after with
          | nil =>
              simp only [List.length_nil] at hlength
              omega
          | cons next after =>
              refine ⟨loop code next, after, by simp [parseFrom, hrest, hne], ?_⟩
              simp only [List.length_cons] at hlength
              omega
        · have hne : Opcode.loopEnd.byte ≠ Opcode.loopStart.byte := by decide
          refine ⟨done, code :: after, by simp [parseFrom, hrest], ?_⟩
          rw [List.count_cons_self, List.count_cons_of_ne hne, List.length_cons]
          omega

theorem exists_parse? {p : Program} (h : p.Balanced) : ∃ block, parse? p = some block := by
  obtain ⟨hparts, hwhole⟩ := h
  have hsuffix : ∀ part, part <:+ p.toList →
      part.count Opcode.loopStart.byte ≤ part.count Opcode.loopEnd.byte := by
    rintro part ⟨front, hfront⟩
    have hlength : front.length + part.length = p.size := by
      rw [← List.length_append, hfront, Array.length_toList]
    have hpart := hparts front.length (by omega)
    rw [← hfront, List.take_left] at hpart
    rw [← hfront, List.count_append, List.count_append] at hwhole
    omega
  obtain ⟨code, after, hparse, hlength⟩ := exists_parseFrom hsuffix
  have hnil : after = [] := List.length_eq_zero_iff.mp (by omega)
  rw [hnil] at hparse
  exact ⟨code, by simp only [parse?, hparse]⟩

end Block

namespace Program

variable {p : Program} {i d : Nat} {b : UInt8} {l r : List UInt8}

theorem holds_zero (p : Program) : p.Holds 0 p.toList := by simp [Holds]

theorem Holds.head (h : p.Holds i (b :: l)) : p[i]? = some b := by
  obtain ⟨rest, hrest⟩ := h
  have hget := congrArg (·[0]?) hrest
  simpa using hget.symm

theorem Holds.left (h : p.Holds i (l ++ r)) : p.Holds i l :=
  (List.prefix_append l r).trans h

theorem Holds.right (h : p.Holds i (l ++ r)) : p.Holds (i + l.length) r := by
  obtain ⟨rest, hrest⟩ := h
  refine ⟨rest, ?_⟩
  rw [← List.drop_drop, ← hrest, List.append_assoc, List.drop_left]

theorem Holds.tail (h : p.Holds i (b :: l)) : p.Holds (i + 1) l := Holds.right (l := [b]) h

theorem opcode?_eq_of_getElem? (h : p[i]? = some b) : p.opcode? i = Opcode.ofByte? b := by
  simp [opcode?, h]

theorem Holds.opcode? {op : Opcode} (h : p.Holds i (op.byte :: l)) : p.opcode? i = some op := by
  rw [opcode?_eq_of_getElem? h.head, Opcode.ofByte?_byte]

/-- A scan passes over a block. -/
theorem scan?_block {block : Block} (h : p.Holds i block.bytes) :
    p.scan? i d = p.scan? (i + block.bytes.length) d := by
  induction block generalizing i d with
  | done => rfl
  | plain b hplain rest ih =>
      have hop := opcode?_eq_of_getElem? h.head
      obtain ⟨hs, he⟩ := not_bracket (p := p) (i := i) fun op h =>
        isPlain_iff.mp hplain op (hop.symm.trans h)
      rw [scan?_of_other hs he, ih h.tail, Block.length_plain, Nat.add_assoc]
  | loop body rest ihBody ihRest =>
      have hbody := h.tail.left
      have hend := h.tail.right
      rw [scan?_of_start h.opcode?, ihBody hbody, scan?_of_end_succ hend.opcode?,
        ihRest hend.tail]
      simp only [Block.length_loop, Nat.add_assoc]

/-- The loop end of a loop comes right after its body. -/
theorem loopEnd?_of_holds {body rest : Block} (h : p.Holds i (Block.loop body rest).bytes) :
    p.loopEnd? i = some (i + 1 + body.bytes.length) := by
  rw [loopEnd?_eq_scan?, scan?_block h.tail.left, scan?_of_end_zero h.tail.right.opcode?]

end Program

end NibTape

import NibTape.Program.Mnemonic

/-!
# Packing and unpacking

Half bytes joined two by two come apart again, except that an odd number of them is filled up
with one inert half byte. So packing keeps the opcodes of a program, and with them all that
mnemonic text says of it: the text leaves the inert bytes out, and the packed program that is
made from it has the same opcodes in the same order.
-/

namespace NibTape

namespace Program

def opcodes (p : Program) : List Opcode := p.toList.filterMap Opcode.ofByte?

end Program

theorem Opcode.byte_lt (op : Opcode) : op.byte < 16 := by
  cases op <;> decide

@[simp] theorem Opcode.filterMap_byte (ops : List Opcode) :
    (ops.map Opcode.byte).filterMap Opcode.ofByte? = ops := by
  induction ops with
  | nil => rfl
  | cons op rest ih =>
      rw [List.map_cons, List.filterMap_cons, Opcode.ofByte?_byte, ih]

namespace Packed

/-- Two half bytes joined are the halves of the byte. -/
theorem halves_of_join {high low : UInt8} (hh : high < 16) (hl : low < 16) :
    halves (high <<< 4 ||| low) = [high, low] := by
  have all : ∀ a b : Fin 16,
      halves (UInt8.ofNat a <<< 4 ||| UInt8.ofNat b) = [UInt8.ofNat a, UInt8.ofNat b] := by
    decide +kernel
  simpa using all ⟨high.toNat, hh⟩ ⟨low.toNat, hl⟩

/-- Joining loses nothing: what comes apart again are the half bytes and the padding, if any
was needed. -/
theorem nibbles_join {values : List UInt8} (h : ∀ v ∈ values, v < 16) :
    nibbles (join values) =
      values ++ if values.length % 2 = 1 then [Opcode.padding] else [] := by
  fun_induction join values with
  | case1 => rfl
  | case2 high =>
      have hhigh := h high (by simp)
      simp [nibbles, halves_of_join hhigh (by decide : Opcode.padding < 16)]
  | case3 high low rest ih =>
      have hhigh := h high (by simp)
      have hlow := h low (by simp)
      have hrest := ih fun v hv => h v (by simp [hv])
      have hparity : (rest.length + 1 + 1) % 2 = rest.length % 2 := by omega
      simp only [nibbles, List.flatMap_cons, List.length_cons, hparity] at hrest ⊢
      rw [halves_of_join hhigh hlow, hrest]
      rfl

theorem length_join (values : List UInt8) :
    2 * (join values).length = values.length + values.length % 2 := by
  fun_induction join values with
  | case1 => rfl
  | case2 high => rfl
  | case3 high low rest ih =>
      simp only [List.length_cons]
      omega

/-- The padding is inert, so a packed program has the opcodes that were packed. -/
theorem opcodes_unpack_join {values : List UInt8} (h : ∀ v ∈ values, v < 16) :
    (unpack (join values)).opcodes = values.filterMap Opcode.ofByte? := by
  unfold Program.opcodes unpack
  rw [nibbles_join h, List.filterMap_append]
  split <;> simp

theorem opcodes_unpack_join_byte (ops : List Opcode) :
    (unpack (join (ops.map Opcode.byte))).opcodes = ops := by
  rw [opcodes_unpack_join, Opcode.filterMap_byte]
  intro v hv
  obtain ⟨op, -, rfl⟩ := List.mem_map.mp hv
  exact op.byte_lt

theorem fits_iff {value : Int} : fits value = true ↔ 0 ≤ value ∧ value ≤ 15 := by
  simp [fits]

theorem firstBad?_eq_none_iff {index : Nat} {values : List Int} :
    firstBad? index values = none ↔ ∀ v ∈ values, fits v = true := by
  induction values generalizing index with
  | nil => simp [firstBad?]
  | cons v rest ih =>
      rw [firstBad?]
      split
      · rename_i hfits
        rw [ih]
        simp [hfits]
      · rename_i hfits
        simp [hfits]

/-- Numbers that fit in half a byte are packed. -/
theorem pack_of_fits {values : List Int} (h : ∀ v ∈ values, fits v = true) :
    pack values = .ok (join (values.map fun v => UInt8.ofNat v.toNat)) := by
  simp only [pack, firstBad?_eq_none_iff.mpr h]

theorem lt_of_fits {value : Int} (h : fits value = true) : UInt8.ofNat value.toNat < 16 := by
  obtain ⟨hlow, hhigh⟩ := fits_iff.mp h
  have hnat : value.toNat < 256 := by omega
  rw [UInt8.lt_iff_toNat_lt, UInt8.toNat_ofNat_of_lt' hnat]
  change value.toNat < 16
  omega

end Packed

namespace Mnemonic

/-- A packed program that is written as text and assembled again keeps its opcodes. -/
theorem opcodes_reassembled (bytes : List UInt8) :
    (Packed.unpack (assemble (disassemble bytes))).opcodes = (Packed.unpack bytes).opcodes := by
  unfold assemble disassemble
  rw [opcodes_map_symbol, Packed.opcodes_unpack_join_byte]
  rfl

end Mnemonic

end NibTape

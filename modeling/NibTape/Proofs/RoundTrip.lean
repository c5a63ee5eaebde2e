import Mathlib.Data.Set.Function
import NibTape.Proofs.Packing

/-!
# Round trips of packed programs

Unpacking takes every byte apart, and packing puts the halves together again, so the byte
strings are in bijection with the lists of an even number of half bytes. A list of odd length
comes back with the padding behind it. Packing also looks at numbers that are no half bytes; it
refuses a list if there is one, and names the first if it can be written.

The text of a program is a second form of it, and a coarser one: it keeps the opcodes only. A
text comes back without its comments. A packed program comes back as the shortest one with the
same opcodes, which it was already if it had no inert half byte but a padding at its end.
-/

namespace NibTape

namespace Packed

variable {bytes : List UInt8} {values : List Int} {v : UInt8} {value : Int} {index : Nat}

def numbers (p : Program) : List Int := p.toList.map fun v => (v.toNat : Int)

theorem numbers_unpack (bytes : List UInt8) :
    numbers (unpack bytes) = (nibbles bytes).map fun v => (v.toNat : Int) := by
  simp [numbers, unpack]

theorem length_numbers_unpack (bytes : List UInt8) :
    (numbers (unpack bytes)).length = 2 * bytes.length := by
  rw [numbers_unpack, List.length_map, length_nibbles]

theorem lt_of_mem_nibbles (h : v ∈ nibbles bytes) : v < 16 := by
  obtain ⟨b, -, hv⟩ := List.mem_flatMap.mp h
  have hbound := b.toNat_lt
  simp only [halves, List.mem_cons, List.not_mem_nil, or_false] at hv
  rw [UInt8.lt_iff_toNat_lt]
  obtain rfl | rfl := hv
  · change (b >>> 4).toNat < 16
    rw [UInt8.toNat_shiftRight, Nat.shiftRight_eq_div_pow]
    change b.toNat / 16 < 16
    omega
  · rw [UInt8.toNat_and]
    exact Nat.lt_succ_of_le Nat.and_le_right

theorem fits_of_lt (h : v < 16) : fits (v.toNat : Int) = true := by
  have hlt : v.toNat < 16 := UInt8.lt_iff_toNat_lt.mp h
  exact fits_iff.mpr ⟨by omega, by omega⟩

theorem fits_of_mem_numbers (h : value ∈ numbers (unpack bytes)) : fits value = true := by
  rw [numbers_unpack] at h
  obtain ⟨v, hv, rfl⟩ := List.mem_map.mp h
  exact fits_of_lt (lt_of_mem_nibbles hv)

/-- A half byte can be told from its number. -/
theorem toNat_of_fits (h : fits value = true) :
    ((UInt8.ofNat value.toNat).toNat : Int) = value := by
  obtain ⟨hlow, hhigh⟩ := fits_iff.mp h
  rw [UInt8.toNat_ofNat_of_lt' (by omega : value.toNat < 256)]
  omega

/-- The instructions of a packed program are packed to the program. -/
theorem pack_numbers (bytes : List UInt8) : pack (numbers (unpack bytes)) = .ok bytes := by
  have hbytes : ((nibbles bytes).map fun v => (v.toNat : Int)).map
      (fun value => UInt8.ofNat value.toNat) = nibbles bytes := by
    simp [Function.comp_def]
  rw [pack_of_fits fun _ => fits_of_mem_numbers, numbers_unpack, hbytes, join_nibbles]

/-! ### Packing numbers of any size -/

theorem pack_eq_ok_iff :
    pack values = .ok bytes ↔
      (∀ w ∈ values, fits w = true) ∧
        bytes = join (values.map fun w => UInt8.ofNat w.toNat) := by
  have hfits := @firstBad?_eq_none_iff 0 values
  rw [← hfits, pack]
  cases firstBad? 0 values <;> simp [eq_comm]

theorem pack_eq_error_iff {e : BadInstruction} :
    pack values = .error e ↔ firstBad? 0 values = some e := by
  rw [pack]
  cases firstBad? 0 values <;> simp

/-- In front of the number that is named, all numbers fit. -/
theorem firstBad?_append {before : List Int} (h : ∀ w ∈ before, fits w = true)
    (bad : fits value = false) (after : List Int) :
    firstBad? index (before ++ value :: after) = some ⟨index + before.length, value⟩ := by
  induction before generalizing index with
  | nil => simp [firstBad?, bad]
  | cons w before ih =>
      have hw := h w (by simp)
      have hrest : firstBad? (index + 1) (before ++ value :: after) =
          some ⟨index + 1 + before.length, value⟩ := ih fun x hx => h x (by simp [hx])
      rw [List.cons_append, firstBad?, if_pos hw, hrest, List.length_cons]
      congr 2
      omega

theorem numbers_of_pack (h : pack values = .ok bytes) :
    numbers (unpack bytes) = values ++ if values.length % 2 = 1 then [8] else [] := by
  obtain ⟨fit, rfl⟩ := pack_eq_ok_iff.mp h
  have hlt : ∀ v ∈ values.map fun w => UInt8.ofNat w.toNat, v < 16 := by
    intro v hv
    obtain ⟨w, hw, rfl⟩ := List.mem_map.mp hv
    exact lt_of_fits (fit w hw)
  have hvalues : (values.map fun w => UInt8.ofNat w.toNat).map
      (fun v => (v.toNat : Int)) = values := by
    rw [List.map_map]
    exact (List.map_congr_left fun w hw => toNat_of_fits (fit w hw)).trans (List.map_id values)
  rw [numbers_unpack, nibbles_join hlt, List.map_append, hvalues, List.length_map]
  split <;> rfl

/-- Half bytes pack to a program exactly if they are its instructions, but for the padding. -/
theorem join_eq_iff {values : List UInt8} (h : ∀ v ∈ values, v < 16) :
    join values = bytes ↔
      values ++ (if values.length % 2 = 1 then [Opcode.padding] else []) = nibbles bytes := by
  rw [← nibbles_join h]
  constructor
  · rintro rfl
    rfl
  · intro same
    rw [← join_nibbles (join values), same, join_nibbles]

/-- Packing and unpacking undo each other on lists of even length. -/
theorem pack_eq_ok_iff_numbers (even : values.length % 2 = 0) :
    pack values = .ok bytes ↔ numbers (unpack bytes) = values := by
  constructor
  · intro h
    rw [numbers_of_pack h, if_neg (by omega), List.append_nil]
  · rintro rfl
    exact pack_numbers bytes

/-- The byte strings are the lists of an even number of half bytes. -/
theorem bijOn_numbers :
    Set.BijOn (fun bytes => numbers (unpack bytes)) Set.univ
      {values | values.length % 2 = 0 ∧ ∀ v ∈ values, 0 ≤ v ∧ v ≤ 15} := by
  refine ⟨?_, ?_, ?_⟩
  · intro bytes _
    refine ⟨?_, fun v hv => fits_iff.mp (fits_of_mem_numbers hv)⟩
    rw [length_numbers_unpack]
    omega
  · intro bytes _ bytes' _ (same : numbers (unpack bytes) = numbers (unpack bytes'))
    have hpack := pack_numbers bytes
    rw [same, pack_numbers bytes', Except.ok.injEq] at hpack
    exact hpack.symm
  · rintro values ⟨even, fit⟩
    have hpack := pack_of_fits fun v hv => fits_iff.mpr (fit v hv)
    exact ⟨_, trivial, (pack_eq_ok_iff_numbers even).mp hpack⟩

theorem message_of_writable {e : BadInstruction}
    (h : e.value.natAbs < Nat.pow 10 Literal.maxDigits) :
    e.message = s!"Instruction at {e.index} must be 0-0xF, got {e.value}" := by
  rw [BadInstruction.message, BadInstruction.message?,
    Decimal.text?_eq_some (Decimal.isWritable_iff.mpr h)]
  rfl

theorem message_of_too_long {e : BadInstruction}
    (h : Nat.pow 10 Literal.maxDigits ≤ e.value.natAbs) :
    e.message = "Exceeds the limit (4300 digits) for integer string conversion; " ++
      "use sys.set_int_max_str_digits() to increase the limit" := by
  rw [BadInstruction.message, BadInstruction.message?,
    Decimal.text?_eq_none (Decimal.isWritable_eq_false_iff.mpr h), ← Decimal.tooLong_eq]
  rfl

/-- A byte string unpacks to twice as many half bytes, which pack to it again. Packing refuses a
list of numbers exactly if one of them is no half byte. It tells the position and the value of
the first such number, unless that has more than 4300 digits; then it tells only that.
Any other list comes back, behind which there is the padding if its length is odd. So unpacking
is a bijection onto the lists of an even number of half bytes, and packing is its inverse. -/
theorem packing_round_trips :
    (∀ bytes, (unpack bytes).size = 2 * bytes.length ∧
      (∀ v ∈ numbers (unpack bytes), 0 ≤ v ∧ v ≤ 15) ∧
      pack (numbers (unpack bytes)) = .ok bytes) ∧
    (∀ values : List Int,
      ((∃ e, pack values = .error e) ↔ ∃ v ∈ values, ¬ (0 ≤ v ∧ v ≤ 15)) ∧
      (∀ before v after, values = before ++ v :: after → (∀ w ∈ before, 0 ≤ w ∧ w ≤ 15) →
        ¬ (0 ≤ v ∧ v ≤ 15) →
        ∃ e, pack values = .error e ∧ e.index = before.length ∧ e.value = v ∧
          (v.natAbs < Nat.pow 10 Literal.maxDigits →
            e.message = s!"Instruction at {before.length} must be 0-0xF, got {v}") ∧
          (Nat.pow 10 Literal.maxDigits ≤ v.natAbs →
            e.message = "Exceeds the limit (4300 digits) for integer string conversion; " ++
              "use sys.set_int_max_str_digits() to increase the limit")) ∧
      ((∀ v ∈ values, 0 ≤ v ∧ v ≤ 15) →
        ∃ bytes, pack values = .ok bytes ∧
          numbers (unpack bytes) = values ++ if values.length % 2 = 1 then [8] else [])) ∧
    Set.BijOn (fun bytes => numbers (unpack bytes)) Set.univ
      {values | values.length % 2 = 0 ∧ ∀ v ∈ values, 0 ≤ v ∧ v ≤ 15} ∧
    ∀ bytes values, values.length % 2 = 0 →
      (pack values = .ok bytes ↔ numbers (unpack bytes) = values) := by
  simp only [← fits_iff]
  refine ⟨?_, ?_, ?_, ?_⟩
  · intro bytes
    exact ⟨size_unpack bytes, fun v => fits_of_mem_numbers, pack_numbers bytes⟩
  · intro values
    refine ⟨?_, ?_, ?_⟩
    · simp only [pack_eq_error_iff, ← Option.ne_none_iff_exists', ne_eq, firstBad?_eq_none_iff,
        not_forall, exists_prop]
    · rintro before v after rfl fit bad
      refine ⟨⟨before.length, v⟩, ?_, rfl, rfl, fun h => message_of_writable h,
        fun h => message_of_too_long h⟩
      rw [pack_eq_error_iff, firstBad?_append fit (by simpa using bad), Nat.zero_add]
    · intro fit
      exact ⟨_, pack_of_fits fit, numbers_of_pack (pack_of_fits fit)⟩
  · simpa only [fits_iff] using bijOn_numbers
  · intro bytes values even
    exact pack_eq_ok_iff_numbers even

/-- In `[3, 15, -1, 16]` two numbers do not fit, the first at position 2; and `+[]` is packed
with the padding behind it. -/
theorem packing_names_first_misfit :
    (∃ e, pack [3, 15, -1, 16] = .error e ∧ e.index = 2 ∧ e.value = -1 ∧
      e.message = "Instruction at 2 must be 0-0xF, got -1") ∧
    (∃ bytes, pack [2, 4, 1] = .ok bytes ∧ numbers (unpack bytes) = [2, 4, 1, 8]) ∧
    (pack [2, 4, 1, 15] = .ok [0x24, 0x1F] ↔ numbers (unpack [0x24, 0x1F]) = [2, 4, 1, 15]) := by
  obtain ⟨-, packed, -, inverse⟩ := packing_round_trips
  obtain ⟨-, refused, -⟩ := packed [3, 15, -1, 16]
  obtain ⟨-, -, kept⟩ := packed [2, 4, 1]
  obtain ⟨e, he, hindex, hvalue, named, -⟩ :=
    refused [3, 15] (-1) [16] rfl (by decide) (by decide)
  have short : (-1 : Int).natAbs < Nat.pow 10 Literal.maxDigits :=
    Nat.lt_of_lt_of_le (by decide) Decimal.billion_le
  exact ⟨⟨e, he, hindex, hvalue, named short⟩, kept (by decide),
    inverse [0x24, 0x1F] [2, 4, 1, 15] rfl⟩

/-- What is told of a number that is too long to be written never names it. -/
theorem unnamed_of_too_long (bad : ¬ (0 ≤ value ∧ value ≤ 15))
    (long : Nat.pow 10 Literal.maxDigits ≤ value.natAbs) :
    ∃ e, pack [value] = .error e ∧
      e.message ≠ s!"Instruction at 0 must be 0-0xF, got {value}" ∧
      e.message = "Exceeds the limit (4300 digits) for integer string conversion; " ++
        "use sys.set_int_max_str_digits() to increase the limit" := by
  have hbad : fits value = false := Bool.eq_false_iff.mpr (mt fits_iff.mp bad)
  have refused : pack [value] = .error ⟨0, value⟩ := by simp [pack, firstBad?, hbad]
  have told := message_of_too_long (e := ⟨0, value⟩) long
  refine ⟨_, refused, ?_, told⟩
  rw [told]
  intro same
  have hfirst := congrArg (fun s => s.toList.head?) same
  simp [toString] at hfirst

/-- A one with 4300 zeros is refused, but it is not named. -/
theorem long_number_is_not_named :
    ¬ (0 ≤ (Nat.pow 10 Literal.maxDigits : Int) ∧ (Nat.pow 10 Literal.maxDigits : Int) ≤ 15) ∧
      ∃ e, pack [(Nat.pow 10 Literal.maxDigits : Int)] = .error e ∧
        e.message ≠
          s!"Instruction at 0 must be 0-0xF, got {(Nat.pow 10 Literal.maxDigits : Int)}" ∧
        e.message = "Exceeds the limit (4300 digits) for integer string conversion; " ++
          "use sys.set_int_max_str_digits() to increase the limit" := by
  have long : Nat.pow 10 Literal.maxDigits ≤ (Nat.pow 10 Literal.maxDigits : Int).natAbs :=
    (Int.natAbs_natCast _).ge
  generalize (Nat.pow 10 Literal.maxDigits : Int) = v at long
  have bad : ¬ (0 ≤ v ∧ v ≤ 15) := by
    have hlarge : 10 ^ 9 ≤ v.natAbs := Decimal.billion_le.trans long
    omega
  exact ⟨bad, unnamed_of_too_long bad long⟩

end Packed

namespace Mnemonic

variable {values : List UInt8} {isOp : UInt8 → Bool}

def symbols : List Char := ['>', '<', '+', '-', '.', ',', '[', ']']

/-- The packed programs that their text gives back: every half byte is an opcode, except that
the last one may be the padding. -/
def Tidy (bytes : List UInt8) : Prop :=
  ∀ i v, (Packed.nibbles bytes)[i]? = some v →
    (Opcode.ofByte? v).isSome = true ∨
      (i + 1 = (Packed.nibbles bytes).length ∧ v = Opcode.padding)

theorem symbol_of_ofSymbol? (c : Char) :
    (Opcode.ofSymbol? c).map Opcode.symbol = if c ∈ symbols then some c else none := by
  unfold Opcode.ofSymbol?
  split <;> simp_all [symbols, Opcode.symbol]

/-- Written out, the opcodes of a text are its symbols. -/
theorem map_symbol_opcodes (text : List Char) :
    (opcodes text).map Opcode.symbol = text.filter (· ∈ symbols) := by
  rw [opcodes, List.map_filterMap, ← List.filterMap_eq_filter]
  congr 1
  funext c
  simp only [symbol_of_ofSymbol?, Option.guard, decide_eq_true_eq]

/-- The half bytes of a program that are opcodes, written as text and read again. -/
theorem assemble_disassemble (bytes : List UInt8) :
    assemble (disassemble bytes) =
      Packed.join ((Packed.nibbles bytes).filter fun v => (Opcode.ofByte? v).isSome) := by
  rw [assemble, disassemble, opcodes_map_symbol, List.map_filterMap, ← List.filterMap_eq_filter]
  congr 2
  funext v
  cases h : Opcode.ofByte? v with
  | none => simp [Option.guard, h]
  | some op => simp [Option.guard, Opcode.byte_of_ofByte? h]

theorem disassemble_assemble (text : List Char) :
    disassemble (assemble text) = (opcodes text).map Opcode.symbol := by
  exact congrArg (List.map Opcode.symbol) (Packed.opcodes_unpack_join_byte (opcodes text))

/-- Half bytes that are as before when only the opcodes are kept and the padding is put back are
opcodes, except for a padding at the end. -/
theorem opcode_or_padding (same : values.filter isOp ++
      (if (values.filter isOp).length % 2 = 1 then [Opcode.padding] else []) = values)
    {i : Nat} {v : UInt8} (hv : values[i]? = some v) :
    isOp v = true ∨ (i + 1 = values.length ∧ v = Opcode.padding) := by
  rw [← same] at hv ⊢
  by_cases hi : i < (values.filter isOp).length
  · rw [List.getElem?_append_left hi] at hv
    exact .inl (List.mem_filter.mp (List.mem_of_getElem? hv)).2
  · rw [List.getElem?_append_right (by omega)] at hv
    rw [List.length_append]
    split at hv
    · obtain ⟨hlt, rfl⟩ := List.getElem?_eq_some_iff.mp hv
      rw [if_pos ‹_›]
      simp only [List.length_singleton, Nat.lt_one_iff] at hlt ⊢
      exact .inr ⟨by omega, by simp⟩
    · simp at hv

/-- An even number of half bytes that are opcodes, except for a padding at the end, is as before
when only the opcodes are kept and the padding is put back. -/
theorem filter_append_padding (even : values.length % 2 = 0)
    (tidy : ∀ i v, values[i]? = some v →
      isOp v = true ∨ (i + 1 = values.length ∧ v = Opcode.padding)) :
    values.filter isOp ++
      (if (values.filter isOp).length % 2 = 1 then [Opcode.padding] else []) = values := by
  obtain rfl | ⟨init, last, hvalues⟩ := values.eq_nil_or_concat
  · rfl
  rw [List.concat_eq_append] at hvalues
  subst hvalues
  -- in front of the last half byte nothing is lost, so only that one is looked at
  have hinit : init.filter isOp = init := by
    refine List.filter_eq_self.mpr fun v mem => ?_
    obtain ⟨i, hi, rfl⟩ := List.mem_iff_getElem.mp mem
    have hv : (init ++ [last])[i]? = some init[i] :=
      (List.getElem?_append_left hi).trans (List.getElem?_eq_getElem hi)
    obtain hop | ⟨hend, -⟩ := tidy i init[i] hv
    · exact hop
    · simp only [List.length_append, List.length_singleton] at hend
      omega
  have hlast := tidy init.length last (by simp)
  simp only [List.length_append, List.length_singleton] at even
  rw [List.filter_append, hinit]
  cases hop : isOp last with
  | true => simp [hop, show ¬ (init.length + 1) % 2 = 1 by omega]
  | false =>
      obtain hop' | ⟨-, rfl⟩ := hlast
      · exact absurd hop' (by simp [hop])
      · simp [hop, show init.length % 2 = 1 by omega]

/-- A text that is assembled and written out again has lost its comments and nothing else. A
packed program that is written out and assembled again is never longer than it was, and it is
the same program exactly if every half byte of it is an opcode, or the padding in the last
place. To do so twice changes nothing more. -/
theorem text_round_trips :
    (∀ text, disassemble (assemble text) = text.filter (· ∈ symbols)) ∧
    ∀ bytes, (assemble (disassemble bytes) = bytes ↔ Tidy bytes) ∧
      (assemble (disassemble bytes)).length ≤ bytes.length ∧
      assemble (disassemble (assemble (disassemble bytes))) = assemble (disassemble bytes) := by
  refine ⟨fun text => (disassemble_assemble text).trans (map_symbol_opcodes text), ?_⟩
  intro bytes
  have hlength := Packed.length_nibbles bytes
  refine ⟨?_, ?_, ?_⟩
  · rw [assemble_disassemble,
      Packed.join_eq_iff fun v hv => Packed.lt_of_mem_nibbles (List.mem_filter.mp hv).1]
    exact ⟨fun same i v => opcode_or_padding same, filter_append_padding (by omega)⟩
  · have hkept := List.length_filter_le (fun v => (Opcode.ofByte? v).isSome)
      (Packed.nibbles bytes)
    have hjoin := Packed.length_join
      ((Packed.nibbles bytes).filter fun v => (Opcode.ofByte? v).isSome)
    rw [assemble_disassemble]
    omega
  · congr 1
    rw [disassemble_assemble, disassemble, opcodes_map_symbol]

end Mnemonic

end NibTape

import Mathlib.Order.Bounds.Basic
import NibTape.Proofs.Pairing
import NibTape.Proofs.Sequence

/-!
# The scan finds the matching bracket

The forward scan keeps one counter and no positions. Here its result is described by counting
alone: from a loop start on, it is the first position through which the text has one loop end
more than loop starts. Between the two the brackets are balanced, and when there is no such
position the scan finds none. Nothing is assumed of the text; brackets in it may be stray or
missing, and the position that the scan starts from need not hold a loop start.

The counter says how many loop ends are still to come beyond those that the text ahead balances.
So the induction is over scans with any depth, for the positions through which the text has that
many loop ends too many.

Two scans that start at different places are compared through the stack of open loops that the
text has in front of a position: in front of the end of a loop, that loop is the innermost one,
and what was opened inside it has ended.
-/

namespace NibTape.Program

variable {p : Program} {a a' d e i j k : Nat}

/-- The positions through which the text from `i` on has `d + 1` loop ends more than loop
starts. -/
def surplus (p : Program) (i d : Nat) : Set Nat :=
  {j | i ≤ j ∧ j < p.size ∧
    (p.extract i (j + 1)).toList.count Opcode.loopEnd.byte =
      (p.extract i (j + 1)).toList.count Opcode.loopStart.byte + d + 1}

/-! ### Counting between two positions -/

theorem count_extract (p : Program) (op : Opcode) (h : i ≤ j) :
    p.countBefore op i + (p.extract i j).toList.count op.byte = p.countBefore op j := by
  have hsplit : p.toList.take j = p.toList.take i ++ (p.extract i j).toList := by
    rw [Array.toList_extract, List.extract_eq_take_drop, ← List.take_add]
    congr 1
    omega
  rw [countBefore, countBefore, hsplit, List.count_append]

theorem mem_surplus_iff :
    j ∈ p.surplus i d ↔ i ≤ j ∧ j < p.size ∧
      p.countBefore .loopEnd (j + 1) + p.countBefore .loopStart i =
        p.countBefore .loopStart (j + 1) + p.countBefore .loopEnd i + d + 1 := by
  refine and_congr_right fun hle => and_congr_right fun _ => ?_
  have hs := p.count_extract .loopStart (j := j + 1) (Nat.le_succ_of_le hle)
  have he := p.count_extract .loopEnd (j := j + 1) (Nat.le_succ_of_le hle)
  omega

/-- An instruction is passed with the depth that makes up for it. -/
theorem surplus_succ
    (step : p.countBefore .loopEnd (i + 1) + p.countBefore .loopStart i + k =
      p.countBefore .loopStart (i + 1) + p.countBefore .loopEnd i + d) :
    p.surplus i d = p.surplus (i + 1) k := by
  ext j
  rw [mem_surplus_iff, mem_surplus_iff]
  constructor
  · rintro ⟨hle, hlt, hcount⟩
    have hne : i ≠ j := by
      rintro rfl
      omega
    omega
  · rintro ⟨hle, hlt, hcount⟩
    omega

/-! ### The scan finds the first of them -/

theorem scan?_spec (p : Program) (i d : Nat) :
    (∀ j, p.scan? i d = some j → IsLeast (p.surplus i d) j) ∧
      (p.scan? i d = none → p.surplus i d = ∅) := by
  induction i, d using scan_induction (p := p) with
  | past i d hsize =>
      rw [scan?_of_size_le hsize]
      refine ⟨nofun, fun _ => Set.eq_empty_of_forall_notMem ?_⟩
      rintro j ⟨hle, hlt, -⟩
      omega
  | start i d hs ih =>
      rw [scan?_of_start hs, surplus_succ (k := d + 1)]
      · exact ih
      · rw [countBefore_succ, countBefore_succ, hs, if_neg (by decide), if_pos rfl]
        omega
  | found i he =>
      rw [scan?_of_end_zero he]
      refine ⟨?_, nofun⟩
      rintro j ⟨⟩
      refine ⟨mem_surplus_iff.mpr ⟨Nat.le_refl i, lt_size_of_opcode? he, ?_⟩, fun k hk => hk.1⟩
      rw [countBefore_succ, countBefore_succ, he, if_pos rfl, if_neg (by decide)]
      omega
  | inner i d he ih =>
      rw [scan?_of_end_succ he, surplus_succ (k := d)]
      · exact ih
      · rw [countBefore_succ, countBefore_succ, he, if_pos rfl, if_neg (by decide)]
        omega
  | other i d _ hs he ih =>
      rw [scan?_of_other hs he, surplus_succ (k := d)]
      · exact ih
      · rw [countBefore_succ, countBefore_succ, if_neg hs, if_neg he]
        omega

theorem scan?_eq_some_iff : p.scan? i d = some j ↔ IsLeast (p.surplus i d) j := by
  obtain ⟨hsome, hnone⟩ := p.scan?_spec i d
  refine ⟨hsome j, fun least => ?_⟩
  cases hscan : p.scan? i d with
  | none =>
      rw [hnone hscan] at least
      cases least.1
  | some k => rw [(hsome k hscan).unique least]

theorem scan?_eq_none_iff : p.scan? i d = none ↔ p.surplus i d = ∅ := by
  obtain ⟨hsome, hnone⟩ := p.scan?_spec i d
  refine ⟨hnone, fun hempty => Option.eq_none_iff_forall_ne_some.mpr fun j hscan => ?_⟩
  have least := hsome j hscan
  rw [hempty] at least
  cases least.1

/-! ### The text in front of it is balanced -/

/-- One instruction adds at most one loop end, so a text that gets to a surplus has had every
smaller one before. -/
theorem countBefore_le_of_isLeast (least : IsLeast (p.surplus i d) j) (hi : i ≤ k) (hj : k ≤ j) :
    p.countBefore .loopEnd k + p.countBefore .loopStart i ≤
      p.countBefore .loopStart k + p.countBefore .loopEnd i + d := by
  induction k, hi using Nat.le_induction with
  | base => omega
  | succ k hi ih =>
      have before := ih (by omega)
      apply Nat.le_of_not_lt
      intro hover
      have hs := p.countBefore_succ .loopStart k
      have he := p.countBefore_succ .loopEnd k
      have hmem : k ∈ p.surplus i d :=
        mem_surplus_iff.mpr ⟨hi, Nat.lt_of_lt_of_le hj least.1.2.1.le, by split at he <;> omega⟩
      have hle : j ≤ k := least.2 hmem
      omega

theorem balanced_of_scan? (h : p.scan? i 0 = some j) : Balanced (p.extract i j) := by
  have least := scan?_eq_some_iff.mp h
  obtain ⟨hle, hlt, hcount⟩ := mem_surplus_iff.mp least.1
  have hsize : (p.extract i j).size = j - i := by
    rw [Array.size_extract]
    omega
  refine ⟨?_, ?_⟩
  · intro k hk
    have hpart : (p.extract i j).toList.take k = (p.extract i (i + k)).toList := by
      simp only [Array.toList_extract, List.extract_eq_take_drop, List.take_take]
      congr 1
      omega
    have hle := countBefore_le_of_isLeast least (Nat.le_add_right i k) (by omega)
    have hs := p.count_extract .loopStart (Nat.le_add_right i k)
    have he := p.count_extract .loopEnd (Nat.le_add_right i k)
    rw [hpart]
    omega
  · have hs := p.count_extract .loopStart hle
    have he := p.count_extract .loopEnd hle
    rw [countBefore_succ, countBefore_succ, (scan?_eq_some h).2, if_pos rfl,
      if_neg (by decide)] at hcount
    omega

/-! ### Two loops of one text -/

/-- A loop that starts inside another one ends inside it. -/
theorem nested_of_lt (hop : p.opcode? a = some .loopStart) (hclose : p.loopEnd? a = some e)
    (hop' : p.opcode? a' = some .loopStart) (hlt : a < a') (hle : a' ≤ e) :
    ∃ e', p.loopEnd? a' = some e' ∧ a' < e' ∧ e' < e := by
  have hbefore : a' < e := by
    refine Nat.lt_of_le_of_ne hle ?_
    rintro rfl
    cases hop'.symm.trans (scan?_eq_some hclose).2
  -- in front of the outer end only the outer loop and those around it are open
  have hclosed : a' ∉ p.openLoops e := by
    rw [openLoops_at_loopEnd? hop hclose, List.mem_append, List.mem_singleton]
    rintro (hmem | rfl)
    · exact Nat.lt_asymm hlt (lt_of_mem_openLoops hmem)
    · exact Nat.lt_irrefl _ hlt
  have hends : ¬ ∀ e', p.loopEnd? a' = some e' → e ≤ e' :=
    fun hlate => hclosed (mem_openLoops_iff.mpr ⟨hbefore, hop', hlate⟩)
  push Not at hends
  obtain ⟨e', hclose', hlt'⟩ := hends
  exact ⟨e', hclose', (scan?_eq_some hclose').1, hlt'⟩

/-- A loop end closes one loop start. -/
theorem eq_of_loopEnd?_eq (hop : p.opcode? a = some .loopStart) (hclose : p.loopEnd? a = some e)
    (hop' : p.opcode? a' = some .loopStart) (hclose' : p.loopEnd? a' = some e) : a = a' := by
  have hopen := (openLoops_at_loopEnd? hop hclose).symm.trans (openLoops_at_loopEnd? hop' hclose')
  exact List.singleton_inj.mp (List.append_inj' hopen rfl).2

/-- For every text and every position: the scan finds the first position behind it through which
the text has one loop end more than loop starts, and none exactly if there is none. A loop end
stands there, and the brackets in between are balanced. More code behind the text does not change
a position that was found. Of two loop starts, the later one stands behind the end of the earlier
one or has its own end in front of it, and no two loop starts have the same end. -/
theorem loop_ends_match (p : Program) (a : Nat) :
    (∀ j, p.loopEnd? a = some j ↔ IsLeast (p.surplus (a + 1) 0) j) ∧
    (p.loopEnd? a = none ↔ p.surplus (a + 1) 0 = ∅) ∧
    (∀ j, p.loopEnd? a = some j →
      p.opcode? j = some .loopEnd ∧ Balanced (p.extract (a + 1) j) ∧
      ∀ q, loopEnd? (p ++ q) a = some j) ∧
    (∀ e a', p.opcode? a = some .loopStart → p.loopEnd? a = some e →
      p.opcode? a' = some .loopStart →
      (a < a' → e < a' ∨ ∃ e', p.loopEnd? a' = some e' ∧ a' < e' ∧ e' < e) ∧
      (p.loopEnd? a' = some e → a' = a)) := by
  refine ⟨fun j => scan?_eq_some_iff, scan?_eq_none_iff, ?_, ?_⟩
  · intro j hclose
    exact ⟨(scan?_eq_some hclose).2, balanced_of_scan? hclose,
      fun q => loopEnd?_append_left q hclose⟩
  · intro e a' hop hclose hop'
    refine ⟨fun hlt => ?_, fun hclose' => eq_of_loopEnd?_eq hop' hclose' hop hclose⟩
    exact (Nat.lt_or_ge e a').imp_right (nested_of_lt hop hclose hop' hlt)

/-- In `][[]+][` the loop that starts at 1 ends at 5, around the one that starts at 2; the last
loop start has no end. -/
theorem loop_ends_match_among_strays :
    let p : Program := #[1, 4, 4, 1, 2, 1, 4]
    IsLeast (p.surplus 2 0) 5 ∧ p.surplus 7 0 = ∅ ∧ Balanced (p.extract 2 5) ∧
      loopEnd? (p ++ #[1]) 1 = some 5 ∧ ∃ e, p.loopEnd? 2 = some e ∧ 2 < e ∧ e < 5 := by
  intro p
  obtain ⟨least, -, found, nested⟩ := loop_ends_match p 1
  obtain ⟨-, empty, -, -⟩ := loop_ends_match p 6
  have hclose : p.loopEnd? 1 = some 5 := by decide
  obtain ⟨-, balanced, longer⟩ := found 5 hclose
  obtain ⟨inside, -⟩ := nested 5 2 (by decide) hclose (by decide)
  exact ⟨(least 5).mp hclose, empty.mp (by decide), balanced, longer #[1],
    (inside (by decide)).resolve_left (by decide)⟩

end NibTape.Program

import Mathlib.Tactic
import PropertyGraph.IdSet

/-!
# Sets of slots

What every operation on sets does to membership, and how many members a set has.
-/

namespace PropertyGraph.IdSet

variable {s t : IdSet} {slot i : Nat} {slots : List Nat}

/-! ### Members -/

@[ext]
theorem ext (h : ∀ i, s.contains i = t.contains i) : s = t := by
  cases s
  cases t
  exact congrArg IdSet.mk (Nat.eq_of_testBit_eq h)

theorem testBit_bit : (1 <<< slot).testBit i = decide (i = slot) := by
  rw [Nat.one_shiftLeft, Nat.testBit_two_pow]
  exact decide_eq_decide.mpr eq_comm

@[simp]
theorem contains_empty : empty.contains i = false := Nat.zero_testBit i

@[simp]
theorem contains_insert : (s.insert slot).contains i = (s.contains i || decide (i = slot)) := by
  rw [contains, insert, Nat.testBit_or, testBit_bit]
  rfl

@[simp]
theorem contains_erase : (s.erase slot).contains i = (s.contains i && !decide (i = slot)) := by
  rw [contains, erase, Nat.testBit_xor, Nat.testBit_or, testBit_bit, contains]
  cases s.bits.testBit i <;> cases decide (i = slot) <;> rfl

@[simp]
theorem contains_union : (s.union t).contains i = (s.contains i || t.contains i) := by
  rw [contains, union, Nat.testBit_or]
  rfl

@[simp]
theorem contains_inter : (s.inter t).contains i = (s.contains i && t.contains i) := by
  rw [contains, inter, Nat.testBit_and]
  rfl

@[simp]
theorem contains_diff : (s.diff t).contains i = (s.contains i && !t.contains i) := by
  rw [contains, diff, Nat.testBit_xor, Nat.testBit_and, contains, contains]
  cases s.bits.testBit i <;> cases t.bits.testBit i <;> rfl

theorem contains_foldl_insert :
    (slots.foldl insert s).contains i = (s.contains i || decide (i ∈ slots)) := by
  induction slots generalizing s with
  | nil => simp
  | cons slot slots ih =>
    rw [List.foldl_cons, ih, contains_insert, Bool.or_assoc, ← Bool.decide_or]
    simp only [List.mem_cons]

theorem contains_foldl_erase :
    (slots.foldl erase s).contains i = (s.contains i && !decide (i ∈ slots)) := by
  induction slots generalizing s with
  | nil => simp
  | cons slot slots ih =>
    rw [List.foldl_cons, ih, contains_erase, Bool.and_assoc, ← Bool.not_or, ← Bool.decide_or]
    simp only [List.mem_cons]

@[simp]
theorem contains_ofList : (ofList slots).contains i = decide (i ∈ slots) := by
  rw [ofList, contains_foldl_insert, contains_empty, Bool.false_or]

/-! ### Counting members -/

theorem mem_toList : i ∈ s.toList ↔ s.contains i = true := by
  rw [toList, List.mem_filter, List.mem_range, and_iff_right_iff_imp]
  intro hi
  have hle : 2 ^ i ≤ s.bits := Nat.ge_two_pow_of_testBit hi
  have hpos : s.bits ≠ 0 := by
    have := Nat.two_pow_pos i
    omega
  exact Nat.lt_succ_of_le ((Nat.le_log2 hpos).mpr hle)

theorem nodup_toList : s.toList.Nodup := List.nodup_range.filter _

theorem size_eq_length {l : List Nat} (hnodup : l.Nodup) (hmem : ∀ i, i ∈ l ↔ s.contains i = true) :
    s.size = l.length :=
  ((List.perm_ext_iff_of_nodup nodup_toList hnodup).mpr fun i => by
    rw [mem_toList, hmem]).length_eq

theorem size_insert (h : s.contains slot = false) : (s.insert slot).size = s.size + 1 := by
  refine size_eq_length (l := slot :: s.toList) (List.nodup_cons.mpr ⟨?_, nodup_toList⟩) fun i => ?_
  · rw [mem_toList, h]
    exact Bool.false_ne_true
  · rw [List.mem_cons, mem_toList, contains_insert, Bool.or_eq_true, decide_eq_true_iff, or_comm]

theorem size_erase (h : s.contains slot = true) : (s.erase slot).size + 1 = s.size := by
  have hback : (s.erase slot).insert slot = s := by
    ext i
    by_cases hi : i = slot <;> simp [hi, h]
  have hgone : (s.erase slot).contains slot = false := by simp
  rw [← size_insert hgone, hback]

theorem size_le {bound : Nat} (h : ∀ i, s.contains i = true → i < bound) : s.size ≤ bound := by
  have hsub : s.toList ⊆ List.range bound := by
    intro i hi
    exact List.mem_range.mpr (h i (mem_toList.mp hi))
  have hle := (nodup_toList.subperm hsub).length_le
  rwa [List.length_range] at hle

end PropertyGraph.IdSet

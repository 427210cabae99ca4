import Mathlib.Tactic
import PropertyGraph.Lock.Threads

/-!
# What a hold changes

One lemma for every way in which the lock changes, each with all that the counts of the threads and
their epochs come to. A count that is taken down is read as a number: it stops at 0. One that goes up
is read as the word that it is, since it may run over.
-/

namespace PropertyGraph.Lock

variable {l : Lock} {me t : ThreadId} {epoch : UInt64}

theorem readHolds_eq (l : Lock) (t : ThreadId) : l.readHolds t = l.readers[t]?.getD 0 :=
  Std.ExtHashMap.getD_eq_getD_getElem?

theorem readHolds_addReadHold :
    (l.addReadHold me).readHolds t = l.readHolds t + if t = me then 1 else 0 := by
  unfold readHolds addReadHold
  rw [Std.ExtHashMap.getD_insert]
  by_cases h : t = me
  · simp [h, readHolds]
  · simp [h, Ne.symm h]

theorem toNat_readHolds_dropReadHold :
    ((l.dropReadHold me).lock.readHolds t).toNat =
      (l.readHolds t).toNat - if t = me then 1 else 0 := by
  unfold dropReadHold
  split
  · next hnone =>
    by_cases h : t = me
    · subst h
      simp [readHolds_eq, hnone]
    · rw [if_neg h, Nat.sub_zero]
  · next holds hsome =>
    split
    · next hmore =>
      rw [readHolds, Std.ExtHashMap.getD_insert]
      by_cases h : t = me
      · subst h
        have hle : (1 : UInt32) ≤ holds := UInt32.le_of_lt hmore
        simp [readHolds_eq, hsome, UInt32.toNat_sub_of_le _ _ hle]
      · simp [h, Ne.symm h, readHolds]
    · next hlast =>
      rw [readHolds, Std.ExtHashMap.getD_erase]
      by_cases h : t = me
      · subst h
        have hle : holds.toNat ≤ 1 := Nat.le_of_not_lt hlast
        simp [readHolds_eq, hsome]
        omega
      · simp [h, Ne.symm h, readHolds]

theorem dropReadHold_eq (l : Lock) (me : ThreadId) :
    ∃ readers, (l.dropReadHold me).lock = { l with readers } := by
  unfold dropReadHold
  split
  · exact ⟨_, rfl⟩
  · split <;> exact ⟨_, rfl⟩

theorem leaveRead_eq (henabled : l.enabled = true) : l.leaveRead me = l.dropReadHold me :=
  if_pos henabled

theorem leaveReadOf_eq (henabled : l.enabled = true) :
    l.leaveReadOf me epoch =
      if epoch = l.epoch me then l.dropReadHold me else { lock := l, wakes := false } := by
  unfold leaveReadOf
  simp only [henabled, Bool.true_and, beq_iff_eq, eq_comm (a := epoch)]

theorem readHolds_leaveAllReads (henabled : l.enabled = true) :
    (l.leaveAllReads me).lock.readHolds t = if t = me then 0 else l.readHolds t := by
  unfold leaveAllReads
  simp only [henabled, Bool.not_true, Bool.false_eq_true, if_false]
  rw [readHolds, Std.ExtHashMap.getD_erase]
  by_cases h : t = me
  · simp [h]
  · simp [h, Ne.symm h, readHolds]

theorem epoch_leaveAllReads (henabled : l.enabled = true) :
    (l.leaveAllReads me).lock.epoch t = l.epoch t + if t = me then 1 else 0 := by
  unfold leaveAllReads
  simp only [henabled, Bool.not_true, Bool.false_eq_true, if_false]
  rw [Lock.epoch, Std.ExtHashMap.getD_insert]
  by_cases h : t = me
  · simp [h, Lock.epoch]
  · simp [h, Ne.symm h, Lock.epoch]

theorem leaveWrite_eq (l : Lock) (me : ThreadId) : ∃ writer writeHolds,
    (l.leaveWrite me).lock = { l with writer, writeHolds } := by
  unfold leaveWrite
  split
  · exact ⟨_, _, rfl⟩
  · split <;> exact ⟨_, _, rfl⟩

end PropertyGraph.Lock

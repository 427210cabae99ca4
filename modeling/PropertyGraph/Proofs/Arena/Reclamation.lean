import PropertyGraph.Proofs.Arena.Calls

/-!
# Blocks given back cannot be seen

An arena that gives blocks back and one that never does, used through the same calls, answer alike
and look alike after every call. What is to be seen of an arena is what its slots hold and what waits
on its stack. The length is not: it shrinks when a block is given back. It matters to a call only
where the stack is empty, and there no block is missing.
-/

namespace PropertyGraph.Arena

variable {α : Type} {a b : Arena α} {slot start : Nat} {call : Call α}

/-- What is to be seen of an arena between two calls: everything but the length, the range of the
slots and the number of blocks. -/
structure Contents (α : Type) where
  size : Nat
  isEmpty : Bool
  garbageLength : Nat
  live : List (Nat × α)
  next? : Nat → Option Nat
  held? : Int → Option α

def contents (a : Arena α) : Contents α where
  size := a.size
  isEmpty := a.isEmpty
  garbageLength := a.garbageLength
  live := a.toList
  next? := a.nextLive?
  held? := a.find?

/-- The answers to calls made in turn, each with what is to be seen after the call. -/
def trace (a : Arena α) : List (Call α) → List (Answer α × Contents α)
  | [] => []
  | call :: rest => ((a.perform call).1, (a.perform call).2.contents) :: (a.perform call).2.trace rest

/-- Two arenas hold the same, and the same slots wait in the same order. -/
structure Agrees (a b : Arena α) : Prop where
  left : a.Valid
  right : b.Valid
  get?_eq : ∀ slot, a.get? slot = b.get? slot
  garbage_eq : a.garbage = b.garbage

theorem agrees_opened (policy policy' : Growth) : Agrees (opened policy : Arena α) (opened policy') where
  left := valid_opened policy
  right := valid_opened policy'
  get?_eq := fun _ => (get?_opened policy).trans (get?_opened policy').symm
  garbage_eq := (garbage_opened policy).trans (garbage_opened policy').symm

/-! ### What is to be seen -/

theorem nextLive?_eq_some_iff : a.nextLive? start = some slot ↔
    start ≤ slot ∧ (a.get? slot).isSome ∧ ∀ i, start ≤ i → i < slot → a.get? i = none := by
  fun_induction a.nextLive? start with
  | case1 start hlt hlive =>
    constructor
    · intro h
      cases h
      exact ⟨le_rfl, hlive, fun i hge hlt => absurd hlt (by omega)⟩
    · rintro ⟨hge, _, hnone⟩
      by_contra hne
      have hbefore : start < slot := Nat.lt_of_le_of_ne hge fun heq => hne (congrArg some heq)
      rw [hnone start le_rfl hbefore] at hlive
      cases hlive
  | case2 start hlt hfree ih =>
    rw [ih]
    have hstart : a.get? start = none := Option.not_isSome_iff_eq_none.mp hfree
    constructor
    · rintro ⟨hge, hslot, hnone⟩
      refine ⟨by omega, hslot, fun i hi hlt => ?_⟩
      rcases Nat.eq_or_lt_of_le hi with rfl | hi
      · exact hstart
      · exact hnone i hi hlt
    · rintro ⟨hge, hslot, hnone⟩
      have hne : start ≠ slot := by
        rintro rfl
        rw [hstart] at hslot
        cases hslot
      exact ⟨by omega, hslot, fun i hi hlt => hnone i (by omega) hlt⟩
  | case3 start hge =>
    constructor
    · intro h
      cases h
    · rintro ⟨hle, hslot, _⟩
      rw [get?_eq_none_of_length_le (by omega)] at hslot
      cases hslot

theorem get?_eq_none_of_nextLive? (h : a.nextLive? start = none) {i : Nat} (hge : start ≤ i) :
    a.get? i = none := by
  by_contra hne
  have hlive : ∃ i, start ≤ i ∧ (a.get? i).isSome := ⟨i, hge, Option.isSome_iff_ne_none.mpr hne⟩
  classical
  have hfound : a.nextLive? start = some (Nat.find hlive) := by
    rw [nextLive?_eq_some_iff]
    refine ⟨(Nat.find_spec hlive).1, (Nat.find_spec hlive).2, fun j hj hlt => ?_⟩
    exact Option.not_isSome_iff_eq_none.mp fun hsome => Nat.find_min hlive hlt ⟨hj, hsome⟩
  rw [h] at hfound
  cases hfound

namespace Agrees

theorem toList_eq (h : Agrees a b) : a.toList = b.toList := by
  have hnodup : ∀ {c : Arena α}, c.Valid → c.toList.Nodup := fun hc =>
    hc.pairwise_lt_toList.imp fun hlt heq => Nat.ne_of_lt hlt (congrArg Prod.fst heq)
  -- both lists are in increasing order of the slots, so it is enough that they have the same members
  have hperm : a.toList.Perm b.toList := by
    apply (List.perm_ext_iff_of_nodup (hnodup h.left) (hnodup h.right)).mpr
    rintro ⟨slot, value⟩
    rw [h.left.mem_toList, h.right.mem_toList, h.get?_eq]
  apply hperm.eq_of_pairwise _ h.left.pairwise_lt_toList h.right.pairwise_lt_toList
  intro x y _ _ hxy hyx
  exact absurd hxy (Nat.lt_asymm hyx)

theorem size_eq (h : Agrees a b) : a.size = b.size := by
  rw [h.left.size_eq, h.right.size_eq, slots, slots, h.toList_eq]

theorem nextLive?_eq (h : Agrees a b) : a.nextLive? start = b.nextLive? start := by
  apply Option.ext
  intro slot
  rw [nextLive?_eq_some_iff, nextLive?_eq_some_iff]
  simp only [h.get?_eq]

theorem find?_eq (h : Agrees a b) (slot : Int) : a.find? slot = b.find? slot := by
  unfold find?
  cases slot.toNat? with
  | none => rfl
  | some position => exact h.get?_eq position

theorem contents_eq (h : Agrees a b) : a.contents = b.contents := by
  simp only [contents, Contents.mk.injEq]
  refine ⟨h.size_eq, ?_, ?_, h.toList_eq, ?_, ?_⟩
  · rw [isEmpty, isEmpty, h.size_eq]
  · rw [garbageLength, garbageLength, h.garbage_eq]
  · funext start
    exact h.nextLive?_eq
  · funext slot
    exact h.find?_eq slot

/-! ### Calls -/

theorem length_eq (h : Agrees a b) (hgarbage : a.garbage = []) : a.length = b.length := by
  apply eq_of_forall_lt_iff
  intro slot
  rw [h.left.lt_length_iff hgarbage, h.right.lt_length_iff (h.garbage_eq ▸ hgarbage), h.get?_eq]

theorem alloc (h : Agrees a b) (value : α) :
    (a.alloc value).1 = (b.alloc value).1 ∧ Agrees (a.alloc value).2 (b.alloc value).2 := by
  have hstack : (a.alloc value).2.garbage = (b.alloc value).2.garbage := by
    rw [garbage_alloc, garbage_alloc, h.garbage_eq]
  have hvalid := h.left.alloc value
  have hvalid' := h.right.alloc value
  cases hgarbage : a.garbage with
  | cons slot garbage =>
    obtain ⟨hslot, _, hget⟩ := h.left.alloc_of_cons value hgarbage
    obtain ⟨hslot', _, hget'⟩ := h.right.alloc_of_cons value (h.garbage_eq ▸ hgarbage)
    refine ⟨hslot.trans hslot'.symm, hvalid, hvalid', fun other => ?_, hstack⟩
    rw [hget, hget', h.get?_eq]
  | nil =>
    -- here the length tells where the slot lies, and with an empty stack the lengths agree
    have hgarbage' : b.garbage = [] := h.garbage_eq ▸ hgarbage
    have hlength := h.length_eq hgarbage
    by_cases hroom : a.length < maxLength
    · obtain ⟨hslot, _, hget⟩ := h.left.alloc_of_nil value hgarbage hroom
      obtain ⟨hslot', _, hget'⟩ := h.right.alloc_of_nil value hgarbage' (hlength ▸ hroom)
      refine ⟨by rw [hslot, hslot', hlength], hvalid, hvalid', fun other => ?_, hstack⟩
      rw [hget, hget', h.get?_eq, hlength]
    · rw [alloc_of_full value hgarbage (by omega), alloc_of_full value hgarbage' (by omega), hlength]
      exact ⟨rfl, h⟩

theorem release (h : Agrees a b) (slot : Int) :
    (a.release slot).1 = (b.release slot).1 ∧ Agrees (a.release slot).2 (b.release slot).2 := by
  unfold Arena.release
  cases slot.toNat? with
  | none => exact ⟨rfl, h⟩
  | some position =>
    refine ⟨?_, h.left.free position, h.right.free position, fun other => ?_, ?_⟩
    · exact (Valid.free_fst.trans (h.get?_eq position)).trans Valid.free_fst.symm
    · change (a.free position).2.get? other = (b.free position).2.get? other
      rw [h.left.get?_free, h.right.get?_free, h.get?_eq]
    · change (a.free position).2.garbage = (b.free position).2.garbage
      cases hlive : a.get? position with
      | none =>
        rw [Valid.free_of_none hlive, Valid.free_of_none ((h.get?_eq position).symm.trans hlive)]
        exact h.garbage_eq
      | some value =>
        rw [h.left.garbage_free_of_some hlive,
          h.right.garbage_free_of_some ((h.get?_eq position).symm.trans hlive), h.garbage_eq]

theorem replace (h : Agrees a b) (slot : Int) (value : α) :
    (a.replace slot value).1 = (b.replace slot value).1 ∧
      Agrees (a.replace slot value).2 (b.replace slot value).2 := by
  unfold Arena.replace
  cases slot.toNat? with
  | none => exact ⟨rfl, h⟩
  | some position =>
    refine ⟨h.get?_eq position, h.left.modify, h.right.modify, fun other => ?_, ?_⟩
    · change (a.modify position _).get? other = (b.modify position _).get? other
      rw [get?_modify, get?_modify, h.get?_eq]
    · change (a.modify position _).garbage = (b.modify position _).garbage
      rw [garbage_modify, garbage_modify, h.garbage_eq]

theorem perform (h : Agrees a b) (call : Call α) :
    (a.perform call).1 = (b.perform call).1 ∧ Agrees (a.perform call).2 (b.perform call).2 := by
  cases call with
  | alloc value =>
    obtain ⟨hanswer, hagrees⟩ := h.alloc value
    exact ⟨congrArg Answer.slot hanswer, hagrees⟩
  | free slot =>
    obtain ⟨hanswer, hagrees⟩ := h.release slot
    exact ⟨congrArg Answer.held hanswer, hagrees⟩
  | write slot value =>
    obtain ⟨hanswer, hagrees⟩ := h.replace slot value
    exact ⟨congrArg Answer.held hanswer, hagrees⟩
  | writeAll f =>
    refine ⟨rfl, h.left.map, h.right.map, fun slot => ?_, h.garbage_eq⟩
    change (a.map f).get? slot = (b.map f).get? slot
    rw [get?_map, get?_map, h.get?_eq]
  | clear =>
    refine ⟨rfl, h.left.clear, h.right.clear, fun slot => ?_, rfl⟩
    change (a.clear).get? slot = (b.clear).get? slot
    exact get?_empty.trans get?_empty.symm

theorem trace_eq (h : Agrees a b) (calls : List (Call α)) : a.trace calls = b.trace calls := by
  induction calls generalizing a b with
  | nil => rfl
  | cons call rest ih =>
    obtain ⟨hanswer, hagrees⟩ := h.perform call
    rw [trace, trace, hanswer, hagrees.contents_eq, ih hagrees]

end Agrees

/-- An arena in blocks of any size and an arena in one block answer the same calls alike, and show
the same after each of them. -/
theorem trace_inBlocks_eq_trace_linear (size : Nat) (calls : List (Call α)) :
    (inBlocks size : Arena α).trace calls = (linear : Arena α).trace calls :=
  (agrees_opened (.blocks size) .linear).trace_eq calls

/-! The length is no part of it: a slot that lay behind the block given back is out of range. -/

example : ((((inBlocks 1 : Arena Nat).alloc 7).2.alloc 8).2.release 1).2.length = 1 ∧
    ((((linear : Arena Nat).alloc 7).2.alloc 8).2.release 1).2.length = 2 := by decide

end PropertyGraph.Arena

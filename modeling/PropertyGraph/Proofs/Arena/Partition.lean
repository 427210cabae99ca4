import PropertyGraph.Proofs.Arena.Calls

/-!
# The slots ever handed out

Callers can keep a log of the slots that they were handed and of those that they freed. The log alone
tells where the next slot comes from: the one freed last among those that wait, and if none waits the
least one never handed out. For the slots that were handed out are the first so many numbers, and
each of them is either live or waits, once. That is so although the length shrinks when a block is
given back, since all slots of that block wait then.
-/

namespace PropertyGraph.Arena

variable {α : Type} {a : Arena α} {slot other : Nat} {value : α}

/-! ### Logs -/

/-- What the callers of an arena were handed and what they freed since it was cleared last, in either
list the latest in front. -/
structure Log where
  handedOut : List Nat := []
  freed : List Nat := []

namespace Log

/-- Notes a call by what it answered. A call for a slot that is not live is not noted. -/
def note (log : Log) : Call α → Answer α → Log
  | .alloc _, .slot (.ok slot) => { log with handedOut := slot :: log.handedOut }
  | .free slot, .held (some _) => { log with freed := slot.toNat :: log.freed }
  | .clear, _ => {}
  | _, _ => log

def count (log : Log) : Nat := log.handedOut.toFinset.card

/-- Where the next slot comes from: the slot freed last of those that wait, or a new one. -/
def next (log : Log) (garbage : List Nat) : Nat :=
  (log.freed.find? fun slot => slot ∈ garbage).getD log.count

end Log

def run (a : Arena α) (log : Log) : List (Call α) → Arena α × Log
  | [] => (a, log)
  | call :: rest => (a.perform call).2.run (log.note call (a.perform call).1) rest

/-! ### Removing repetitions -/

theorem eraseDups_filter (p : Nat → Bool) (l : List Nat) :
    (l.filter p).eraseDups = l.eraseDups.filter p := by
  induction h : l.length using Nat.strong_induction_on generalizing l with
  | _ n ih =>
    cases l with
    | nil => rfl
    | cons x xs =>
      have hshort : (xs.filter fun y => !y == x).length < n := by
        have hle := List.length_filter_le (fun y => !y == x) xs
        rw [List.length_cons] at h
        omega
      have hrest := ih _ hshort (xs.filter fun y => !y == x) rfl
      rw [List.filter_filter] at hrest
      by_cases hx : p x = true
      · rw [List.filter_cons_of_pos hx, List.eraseDups_cons, List.eraseDups_cons,
          List.filter_cons_of_pos hx, List.filter_filter, ← hrest]
        simp only [Bool.and_comm]
      · have hskip : xs.filter p = xs.filter fun y => p y && !y == x := by
          apply List.filter_congr
          intro y _
          by_cases hy : y = x
          · rw [hy, Bool.eq_false_iff.mpr hx, Bool.false_and]
          · rw [beq_false_of_ne hy, Bool.not_false, Bool.and_true]
        rw [List.filter_cons_of_neg hx, List.eraseDups_cons, List.filter_cons_of_neg hx, ← hrest, hskip]

/-! ### What the log knows -/

structure Logged (a : Arena α) (log : Log) : Prop where
  valid : a.Valid
  mem_handedOut : ∀ slot, slot ∈ log.handedOut ↔ (a.get? slot).isSome ∨ slot ∈ a.garbage
  garbage_eq : a.garbage = (log.freed.filter fun slot => slot ∈ a.garbage).eraseDups

theorem logged_of_empty (hvalid : a.Valid) (hget : ∀ slot, a.get? slot = none)
    (hgarbage : a.garbage = []) : Logged a {} where
  valid := hvalid
  mem_handedOut := by simp [hget, hgarbage]
  garbage_eq := by simp [hgarbage]

theorem Valid.exists_bound (h : a.Valid) :
    ∃ bound, ∀ slot, slot < bound ↔ (a.get? slot).isSome ∨ slot ∈ a.garbage := by
  have hfold : ∀ (l : List Nat) (slot : Nat),
      slot < l.foldr (fun x bound => max (x + 1) bound) a.length ↔
        slot < a.length ∨ ∃ x ∈ l, slot ≤ x := by
    intro l slot
    induction l with
    | nil => simp
    | cons x xs ih =>
      rw [List.foldr_cons, lt_max_iff, ih, Nat.lt_succ_iff, List.exists_mem_cons_iff]
      tauto
  -- the bound is the length, or lies just above the highest slot that waits
  refine ⟨_, fun slot => (hfold a.garbage slot).trans ?_⟩
  constructor
  · rintro (hslot | ⟨top, htop, hle⟩)
    · by_cases hlive : (a.get? slot).isSome
      · exact .inl hlive
      · exact .inr (h.waiting slot hslot (Option.not_isSome_iff_eq_none.mp hlive))
    · by_cases hlive : (a.get? slot).isSome
      · exact .inl hlive
      · by_cases hslot : slot < a.length
        · exact .inr (h.waiting slot hslot (Option.not_isSome_iff_eq_none.mp hlive))
        · -- between the length and a slot that waits all slots wait: their blocks were given back
          exact .inr (h.reclaimed top htop slot (by omega) hle)
  · rintro (hlive | hmem)
    · obtain ⟨value, hvalue⟩ := Option.isSome_iff_exists.mp hlive
      exact .inl (lt_length_of_get? hvalue)
    · exact .inr ⟨slot, hmem, le_rfl⟩

namespace Logged

variable {log : Log}

theorem lt_count_iff (h : Logged a log) :
    slot < log.count ↔ (a.get? slot).isSome ∨ slot ∈ a.garbage := by
  obtain ⟨bound, hbound⟩ := h.valid.exists_bound
  have hrange : log.handedOut.toFinset = Finset.range bound := by
    ext slot
    rw [List.mem_toFinset, Finset.mem_range, hbound, h.mem_handedOut]
  rw [Log.count, hrange, Finset.card_range, hbound]

theorem count_le (h : Logged a log) : log.count ≤ maxLength := by
  by_contra hlt
  rcases h.lt_count_iff.mp (Nat.lt_of_not_le hlt) with hlive | hmem
  · obtain ⟨value, hvalue⟩ := Option.isSome_iff_exists.mp hlive
    exact Nat.lt_irrefl _ (h.valid.lt_maxLength hvalue)
  · exact Nat.lt_irrefl _ (h.valid.garbage_lt _ hmem)

theorem length_eq_count (h : Logged a log) (hgarbage : a.garbage = []) : a.length = log.count := by
  apply eq_of_forall_lt_iff
  intro slot
  rw [h.valid.lt_length_iff hgarbage, h.lt_count_iff, hgarbage]
  simp

/-- The slot freed last of those that wait is on top of the stack. -/
theorem find?_freed (h : Logged a log) :
    (log.freed.find? fun slot => slot ∈ a.garbage) = a.garbage.head? := by
  conv_rhs => rw [h.garbage_eq]
  rw [← List.head?_filter]
  cases log.freed.filter fun slot => slot ∈ a.garbage with
  | nil => rfl
  | cons x xs => rw [List.eraseDups_cons, List.head?_cons, List.head?_cons]

theorem next_of_cons (h : Logged a log) {garbage : List Nat} (hgarbage : a.garbage = slot :: garbage) :
    log.next a.garbage = slot := by
  rw [Log.next, h.find?_freed, hgarbage]
  rfl

theorem next_of_nil (h : Logged a log) (hgarbage : a.garbage = []) :
    log.next a.garbage = a.length := by
  rw [Log.next, h.find?_freed, hgarbage, h.length_eq_count hgarbage]
  rfl

/-! ### Every call can be noted -/

theorem of_same (h : Logged a log) {a' : Arena α} (hvalid : a'.Valid)
    (hlive : ∀ slot, (a'.get? slot).isSome = (a.get? slot).isSome)
    (hgarbage : a'.garbage = a.garbage) : Logged a' log where
  valid := hvalid
  mem_handedOut := by
    intro slot
    rw [hlive, hgarbage]
    exact h.mem_handedOut slot
  garbage_eq := by
    rw [hgarbage]
    exact h.garbage_eq

theorem alloc_of_cons (h : Logged a log) (value : α) {garbage : List Nat}
    (hgarbage : a.garbage = slot :: garbage) :
    Logged (a.alloc value).2 { log with handedOut := slot :: log.handedOut } := by
  obtain ⟨_, hvalid, hget⟩ := h.valid.alloc_of_cons value hgarbage
  have hstack : (a.alloc value).2.garbage = garbage := by
    rw [garbage_alloc, hgarbage, List.tail_cons]
  have hnodup := h.valid.garbage_nodup
  rw [hgarbage, List.nodup_cons] at hnodup
  have hmem : ∀ other, other ∈ garbage ↔ other ∈ a.garbage ∧ other ≠ slot := by
    intro other
    rw [hgarbage, List.mem_cons]
    constructor
    · exact fun hother => ⟨.inr hother, fun heq => hnodup.1 (heq ▸ hother)⟩
    · exact fun ⟨hother, hne⟩ => hother.resolve_left hne
  refine ⟨hvalid, fun other => ?_, ?_⟩
  · rw [List.mem_cons, h.mem_handedOut, hget, hstack, hmem]
    by_cases heq : other = slot <;> simp [heq]
  · -- the slot waited once, so of what waits only its notes are left out
    rw [hstack]
    have hsplit : (log.freed.filter fun x => x ∈ garbage) =
        (log.freed.filter fun x => x ∈ a.garbage).filter fun x => x ≠ slot := by
      rw [List.filter_filter]
      apply List.filter_congr
      intro x _
      rw [← Bool.decide_and, decide_eq_decide, hmem]
      exact and_comm
    rw [hsplit, eraseDups_filter, ← h.garbage_eq, hgarbage, List.filter_cons_of_neg (by simp)]
    symm
    apply List.filter_eq_self.mpr
    intro x hx
    exact decide_eq_true ((hmem x).mp hx).2

theorem alloc_of_nil (h : Logged a log) (value : α) (hgarbage : a.garbage = [])
    (hroom : a.length < maxLength) :
    Logged (a.alloc value).2 { log with handedOut := a.length :: log.handedOut } := by
  obtain ⟨_, hvalid, hget⟩ := h.valid.alloc_of_nil value hgarbage hroom
  have hstack : (a.alloc value).2.garbage = [] := by
    rw [garbage_alloc, hgarbage, List.tail_nil]
  refine ⟨hvalid, fun other => ?_, ?_⟩
  · rw [List.mem_cons, h.mem_handedOut, hget, hstack, hgarbage]
    by_cases heq : other = a.length <;> simp [heq]
  · simp [hstack]

theorem free_of_some (h : Logged a log) (hlive : a.get? slot = some value) :
    Logged (a.free slot).2 { log with freed := slot :: log.freed } := by
  have hstack := h.valid.garbage_free_of_some hlive
  have hnot : slot ∉ a.garbage := by
    intro hmem
    rw [h.valid.garbage_free slot hmem] at hlive
    cases hlive
  refine ⟨h.valid.free slot, fun other => ?_, ?_⟩
  · rw [h.mem_handedOut, h.valid.get?_free, hstack, List.mem_cons]
    by_cases heq : other = slot <;> simp [heq, hlive]
  · -- an older note of the slot is a repetition, now that it waits again
    rw [hstack, List.filter_cons_of_pos (by simp), List.eraseDups_cons, List.filter_filter]
    have hrest : (log.freed.filter fun x => (!x == slot) && decide (x ∈ slot :: a.garbage)) =
        log.freed.filter fun x => x ∈ a.garbage := by
      apply List.filter_congr
      intro x _
      by_cases hx : x = slot
      · simp [hx, hnot]
      · simp [hx]
    rw [hrest, ← h.garbage_eq]

theorem perform (h : Logged a log) (call : Call α) :
    Logged (a.perform call).2 (log.note call (a.perform call).1) := by
  cases call with
  | alloc value =>
    cases hgarbage : a.garbage with
    | cons slot garbage =>
      simp only [Arena.perform, (h.valid.alloc_of_cons value hgarbage).1, Log.note]
      exact h.alloc_of_cons value hgarbage
    | nil =>
      by_cases hroom : a.length < maxLength
      · simp only [Arena.perform, (h.valid.alloc_of_nil value hgarbage hroom).1, Log.note]
        exact h.alloc_of_nil value hgarbage hroom
      · simp only [Arena.perform, alloc_of_full value hgarbage (Nat.le_of_not_lt hroom), Log.note]
        exact h
  | free slot =>
    cases hslot : slot.toNat? with
    | none =>
      simp only [Arena.perform, release, hslot, Log.note]
      exact h
    | some position =>
      have hposition : slot.toNat = position := by
        rw [Int.mem_toNat?.mp hslot, Int.toNat_natCast]
      cases hlive : a.get? position with
      | none =>
        simp only [Arena.perform, release, hslot, Valid.free_fst, hlive, Log.note,
          Valid.free_of_none hlive]
        exact h
      | some value =>
        simp only [Arena.perform, release, hslot, Valid.free_fst, hlive, Log.note, hposition]
        exact h.free_of_some hlive
  | write slot value =>
    refine h.of_same (h.valid.replace slot value) (fun other => ?_) ?_
    · simp only [Arena.perform, Arena.replace]
      split
      · rw [get?_modify]
        split <;> simp
      · rfl
    · simp only [Arena.perform, Arena.replace]
      split
      · exact garbage_modify
      · rfl
  | writeAll f =>
    refine h.of_same h.valid.map (fun other => ?_) rfl
    simp only [Arena.perform, get?_map, Option.isSome_map]
  | clear => exact logged_of_empty h.valid.clear (fun _ => get?_empty) rfl

theorem run (h : Logged a log) (calls : List (Call α)) :
    Logged (a.run log calls).1 (a.run log calls).2 := by
  induction calls generalizing a log with
  | nil => exact h
  | cons call rest ih => exact ih (h.perform call)

end Logged

/-! ### The partition -/

def Indexes (a : Arena α) (block offset : Nat) : Prop :=
  ∃ B, a.blocks[block]? = some B ∧ offset < B.slots.size

def regrown (a : Arena α) (slot : Nat) (garbage : List Nat) : Arena α :=
  if a.length ≤ slot then { a with garbage }.regrow slot else { a with garbage }

/-- The slots handed out are partitioned into those that are live and those that wait, and handing
out and freeing keep to it. -/
structure Partitioned (a : Arena α) (log : Log) : Prop where
  lt_count_iff : ∀ slot, slot < log.count ↔ (a.get? slot).isSome ∨ slot ∈ a.garbage
  disjoint : ∀ slot ∈ a.garbage, a.get? slot = none
  nodup : a.garbage.Nodup
  /-- The only refusal is that of a new slot where no number is left for it. -/
  alloc_fst : ∀ value, (a.alloc value).1 =
    if a.garbage = [] ∧ log.count = maxLength then .error (.arenaFull log.count)
    else .ok (log.next a.garbage)
  next_free : a.get? (log.next a.garbage) = none
  get?_alloc : ∀ value slot, (a.alloc value).1 = .ok slot → ∀ other,
    (a.alloc value).2.get? other = if other = slot then some value else a.get? other
  get?_release : ∀ (slot : Int) (other : Nat),
    (a.release slot).2.get? other = if (other : Int) = slot then none else a.get? other
  /-- Where a slot is located there is a block with room for it. -/
  indexes : ∀ slot block offset, a.locate? slot = some (block, offset) → a.Indexes block offset
  /-- A slot from the stack is located once its block is back. -/
  indexes_regrown : ∀ slot garbage, a.garbage = slot :: garbage → ∃ block offset,
    (a.regrown slot garbage).locate? slot = some (block, offset) ∧
      (a.regrown slot garbage).Indexes block offset
  /-- The block of a new slot is there or is the next one, and ends just before the slot. -/
  ends_before : (a.growth.place a.length).1 ≤ a.blocks.size ∧
    (a.blocks[(a.growth.place a.length).1]?.getD {}).slots.size = (a.growth.place a.length).2

theorem Laid.indexes (h : a.Laid) {block offset : Nat}
    (hslot : a.locate? slot = some (block, offset)) : a.Indexes block offset := by
  unfold locate? at hslot
  split at hslot
  · next hlt =>
    have hblock := h.exists_block hlt
    rwa [Option.some.inj hslot] at hblock
  · cases hslot

namespace Logged

variable {log : Log}

theorem alloc_fst (h : Logged a log) (value : α) : (a.alloc value).1 =
    if a.garbage = [] ∧ log.count = maxLength then .error (.arenaFull log.count)
    else .ok (log.next a.garbage) := by
  cases hgarbage : a.garbage with
  | cons slot garbage =>
    rw [if_neg (by simp), (h.valid.alloc_of_cons value hgarbage).1, ← hgarbage, h.next_of_cons hgarbage]
  | nil =>
    have hlength := h.length_eq_count hgarbage
    have hle := h.count_le
    by_cases hroom : a.length < maxLength
    · rw [if_neg (by omega), (h.valid.alloc_of_nil value hgarbage hroom).1, ← hgarbage,
        h.next_of_nil hgarbage]
    · rw [if_pos ⟨rfl, by omega⟩, alloc_of_full value hgarbage (by omega), hlength]

theorem get?_next (h : Logged a log) : a.get? (log.next a.garbage) = none := by
  cases hgarbage : a.garbage with
  | cons slot garbage =>
    rw [← hgarbage, h.next_of_cons hgarbage]
    exact h.valid.garbage_free slot (hgarbage ▸ List.mem_cons_self)
  | nil =>
    rw [← hgarbage, h.next_of_nil hgarbage]
    exact get?_eq_none_of_length_le le_rfl

theorem get?_alloc (h : Logged a log) (hslot : (a.alloc value).1 = .ok slot) :
    (a.alloc value).2.get? other = if other = slot then some value else a.get? other := by
  cases hgarbage : a.garbage with
  | cons top garbage =>
    obtain ⟨htop, _, hget⟩ := h.valid.alloc_of_cons value hgarbage
    rw [htop, Except.ok.injEq] at hslot
    exact hslot ▸ hget other
  | nil =>
    by_cases hroom : a.length < maxLength
    · obtain ⟨hnew, _, hget⟩ := h.valid.alloc_of_nil value hgarbage hroom
      rw [hnew, Except.ok.injEq] at hslot
      exact hslot ▸ hget other
    · rw [alloc_of_full value hgarbage (Nat.le_of_not_lt hroom)] at hslot
      cases hslot

theorem get?_release (h : Logged a log) (slot : Int) :
    (a.release slot).2.get? other = if (other : Int) = slot then none else a.get? other := by
  unfold release
  cases hslot : slot.toNat? with
  | none =>
    rw [if_neg]
    rintro rfl
    rw [Int.mem_toNat?.mpr rfl] at hslot
    cases hslot
  | some position =>
    rw [Int.mem_toNat?.mp hslot]
    simp only [Nat.cast_inj]
    exact h.valid.get?_free

theorem partitioned (h : Logged a log) : Partitioned a log where
  lt_count_iff := fun _ => h.lt_count_iff
  disjoint := h.valid.garbage_free
  nodup := h.valid.garbage_nodup
  alloc_fst := h.alloc_fst
  next_free := h.get?_next
  get?_alloc := fun _ _ hslot _ => h.get?_alloc hslot
  get?_release := fun slot _ => h.get?_release slot
  indexes := fun _ _ _ hslot => h.valid.toLaid.indexes hslot
  indexes_regrown := by
    intro slot garbage hgarbage
    obtain ⟨b, hb, hlaid, _, _, _, _, hlength⟩ := h.valid.exists_regrown hgarbage
    rw [regrown, hb]
    have hslot : b.locate? slot = some (b.growth.place slot) := if_pos (by omega)
    exact ⟨_, _, hslot, hlaid.indexes hslot⟩
  ends_before := ⟨h.valid.toLaid.block_le_size, h.valid.toLaid.size_next_block⟩

end Logged

theorem partitioned_run (policy : Growth) (calls : List (Call α)) :
    Partitioned ((opened policy : Arena α).run {} calls).1 ((opened policy).run {} calls).2 :=
  have hopened : Logged (opened policy : Arena α) {} :=
    logged_of_empty (valid_opened policy) (fun _ => get?_opened policy) (garbage_opened policy)
  (hopened.run calls).partitioned

end PropertyGraph.Arena

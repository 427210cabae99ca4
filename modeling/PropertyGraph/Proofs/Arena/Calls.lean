import PropertyGraph.Proofs.Arena.Slots

/-!
# Calls on an arena

An arena is opened with a policy of growth and then used through calls. A call is described by what
it answers, by the slots that hold something else afterwards, and by what it does to the stack. None
of the three depends on the policy; how far the arena reaches does.
-/

namespace PropertyGraph.Arena

variable {α : Type} {a : Arena α} {slot other : Nat} {value : α}

def opened : Growth → Arena α
  | .blocks size => inBlocks size
  | .linear => linear

/-- The calls that may change an arena. A caller may name a slot by any integer. -/
inductive Call (α : Type) where
  | alloc (value : α)
  | free (slot : Int)
  | write (slot : Int) (value : α)
  | writeAll (f : α → α)
  | clear

inductive Answer (α : Type) where
  | slot (slot : Except Fault Nat)
  | held (value : Option α)
  | done

def perform (a : Arena α) : Call α → Answer α × Arena α
  | .alloc value => (.slot (a.alloc value).1, (a.alloc value).2)
  | .free slot => (.held (a.release slot).1, (a.release slot).2)
  | .write slot value => (.held (a.replace slot value).1, (a.replace slot value).2)
  | .writeAll f => (.done, a.map f)
  | .clear => (.done, a.clear)

theorem valid_opened (policy : Growth) : (opened policy : Arena α).Valid := by
  cases policy with
  | blocks size => exact valid_inBlocks size
  | linear => exact valid_linear

theorem get?_opened (policy : Growth) : (opened policy : Arena α).get? slot = none := by
  cases policy <;> exact get?_empty

theorem garbage_opened (policy : Growth) : (opened policy : Arena α).garbage = [] := by
  cases policy <;> rfl

/-! ### The stack -/

theorem garbage_regrow : (a.regrow slot).garbage = a.garbage := by
  unfold regrow
  split <;> rfl

theorem garbage_alloc : (a.alloc value).2.garbage = a.garbage.tail := by
  unfold alloc allocWith
  split
  · next slot garbage hgarbage =>
    have hregrown : (if a.length ≤ slot then { a with garbage }.regrow slot
        else { a with garbage }).garbage = garbage := by
      split
      · exact garbage_regrow
      · rfl
    simp only [hgarbage, List.tail_cons]
    split <;> exact hregrown
  · next hgarbage => split <;> simp only [hgarbage, List.tail_nil, append]

theorem garbage_reclaim {block : Nat} : (a.reclaim block).garbage = a.garbage := by
  unfold reclaim
  split
  · rfl
  · split <;> rfl

theorem Valid.garbage_free_of_some (h : a.Valid) (hlive : a.get? slot = some value) :
    (a.free slot).2.garbage = slot :: a.garbage := by
  rw [h.free_of_some hlive, garbage_reclaim]
  rfl

theorem garbage_modify {f : α → α} : (a.modify slot f).garbage = a.garbage := by
  unfold modify
  split <;> rfl

/-! ### How many slots are live -/

namespace Valid

theorem lt_length_iff (h : a.Valid) (hgarbage : a.garbage = []) :
    slot < a.length ↔ (a.get? slot).isSome := by
  constructor
  · intro hslot
    by_contra hfree
    -- a free slot below the length would wait
    have hmem := h.waiting slot hslot (Option.not_isSome_iff_eq_none.mp hfree)
    rw [hgarbage] at hmem
    cases hmem
  · intro hlive
    obtain ⟨value, hvalue⟩ := Option.isSome_iff_exists.mp hlive
    exact lt_length_of_get? hvalue

theorem size_eq_length (h : a.Valid) (hgarbage : a.garbage = []) : a.size = a.length := by
  have hperm : a.slots.Perm (List.range a.length) :=
    (List.perm_ext_iff_of_nodup h.nodup_slots List.nodup_range).mpr fun slot => by
      rw [h.mem_slots, List.mem_range, h.lt_length_iff hgarbage]
  rw [h.size_eq, hperm.length_eq, List.length_range]

theorem size_eq_of_live {β : Type} {b : Arena β} (h : a.Valid) (h' : b.Valid)
    (hsame : ∀ slot, (a.get? slot).isSome = (b.get? slot).isSome) : a.size = b.size := by
  have hperm : a.slots.Perm b.slots :=
    (List.perm_ext_iff_of_nodup h.nodup_slots h'.nodup_slots).mpr fun slot => by
      rw [h.mem_slots, h'.mem_slots, hsame]
  rw [h.size_eq, h'.size_eq, hperm.length_eq]

theorem size_eq_zero (h : a.Valid) (hnone : ∀ slot, a.get? slot = none) : a.size = 0 := by
  rw [h.size_eq, List.length_eq_zero_iff, List.eq_nil_iff_forall_not_mem]
  intro slot hslot
  rw [h.mem_slots, hnone] at hslot
  cases hslot

theorem size_le_length (h : a.Valid) : a.size ≤ a.length := by
  have hsubset : a.slots ⊆ List.range a.length := by
    intro slot hslot
    obtain ⟨value, hvalue⟩ := Option.isSome_iff_exists.mp (h.mem_slots.mp hslot)
    exact List.mem_range.mpr (lt_length_of_get? hvalue)
  have hle := (List.subperm_of_subset h.nodup_slots hsubset).length_le
  rwa [← h.size_eq, List.length_range] at hle

theorem alloc_of_cons (h : a.Valid) (value : α) {garbage : List Nat}
    (hgarbage : a.garbage = slot :: garbage) :
    (a.alloc value).1 = .ok slot ∧ (a.alloc value).2.Valid ∧
      ∀ other, (a.alloc value).2.get? other = if other = slot then some value else a.get? other := by
  obtain ⟨a', hanswer, hvalid, _, hget⟩ := h.allocWith_of_cons (fun _ => value) hgarbage
  rw [alloc, hanswer]
  exact ⟨rfl, hvalid, hget⟩

theorem alloc_of_nil (h : a.Valid) (value : α) (hgarbage : a.garbage = [])
    (hroom : a.length < maxLength) :
    (a.alloc value).1 = .ok a.length ∧ (a.alloc value).2.Valid ∧
      ∀ other, (a.alloc value).2.get? other =
        if other = a.length then some value else a.get? other := by
  obtain ⟨a', hanswer, hvalid, _, hget⟩ := h.allocWith_of_nil (fun _ => value) hgarbage hroom
  rw [alloc, hanswer]
  exact ⟨rfl, hvalid, hget⟩

end Valid

theorem alloc_of_full (value : α) (hgarbage : a.garbage = []) (hfull : maxLength ≤ a.length) :
    a.alloc value = (.error (.arenaFull a.length), a) := by
  simp only [alloc, allocWith, hgarbage]
  rw [if_pos hfull]

def HasRoom (a : Arena α) : Prop := a.garbage ≠ [] ∨ a.length < maxLength

theorem Valid.exists_alloc_iff (h : a.Valid) (value : α) :
    (∃ slot, (a.alloc value).1 = .ok slot) ↔ a.HasRoom := by
  unfold HasRoom
  cases hgarbage : a.garbage with
  | cons slot garbage =>
    exact ⟨fun _ => .inl (List.cons_ne_nil _ _), fun _ => ⟨slot, (h.alloc_of_cons value hgarbage).1⟩⟩
  | nil =>
    by_cases hroom : a.length < maxLength
    · exact ⟨fun _ => .inr hroom, fun _ => ⟨a.length, (h.alloc_of_nil value hgarbage hroom).1⟩⟩
    · rw [alloc_of_full value hgarbage (Nat.le_of_not_lt hroom)]
      constructor
      · rintro ⟨slot, hslot⟩
        cases hslot
      · rintro (hne | hlt)
        · exact absurd rfl hne
        · exact absurd hlt hroom

/-! ### How far an arena reaches -/

theorem Valid.length_alloc_of_cons (h : a.Valid) (value : α) {garbage : List Nat}
    (hgarbage : a.garbage = slot :: garbage) :
    (a.alloc value).2.length = max a.length (slot + 1) := by
  obtain ⟨b, hb, _, _, _, _, _, hlength⟩ := h.exists_regrown hgarbage
  have hslot : slot < b.length := by omega
  simp only [Arena.alloc, allocWith, hgarbage]
  rw [hb, locate?, if_pos hslot]
  exact hlength

theorem length_alloc_of_nil (value : α) (hgarbage : a.garbage = []) (hroom : a.length < maxLength) :
    (a.alloc value).2.length = a.length + 1 := by
  simp only [alloc, allocWith, hgarbage]
  rw [if_neg (by omega)]
  rfl

theorem Valid.length_alloc_le_of_linear (h : a.Valid) (hgrowth : a.growth = .linear) (value : α) :
    (a.alloc value).2.length ≤ max a.length (a.size + 1) := by
  cases hgarbage : a.garbage with
  | cons slot garbage =>
    have hslot : slot < a.length := h.linear_garbage hgrowth slot (by simp [hgarbage])
    rw [h.length_alloc_of_cons value hgarbage]
    omega
  | nil =>
    rcases Nat.lt_or_ge a.length maxLength with hroom | hfull
    · rw [length_alloc_of_nil value hgarbage hroom, h.size_eq_length hgarbage]
      exact Nat.le_max_right _ _
    · rw [alloc_of_full value hgarbage hfull]
      exact Nat.le_max_left _ _

theorem length_free_of_linear (hgrowth : a.growth = .linear) (slot : Nat) :
    (a.free slot).2.length = a.length := by
  simp only [free, reclaim, vacate, hgrowth]
  split
  · rfl
  · split <;> rfl

/-! ### The policy of growth stays -/

theorem growth_modify {f : α → α} : (a.modify slot f).growth = a.growth := by
  unfold modify
  split <;> rfl

theorem growth_free (slot : Nat) : (a.free slot).2.growth = a.growth := by
  simp only [free]
  split
  · rfl
  · split
    · rfl
    · exact growth_reclaim

theorem Valid.growth_alloc (h : a.Valid) (value : α) : (a.alloc value).2.growth = a.growth := by
  rcases h.allocWith_cases fun _ => value with ⟨hfull, _⟩ | ⟨_, _, hdone, _, _, hgrowth, _⟩
  · rw [Arena.alloc, hfull]
  · rw [Arena.alloc, hdone]
    exact hgrowth

/-! ### Every call keeps the arena valid -/

theorem Valid.alloc (h : a.Valid) (value : α) : (a.alloc value).2.Valid := by
  cases hgarbage : a.garbage with
  | cons slot garbage => exact (h.alloc_of_cons value hgarbage).2.1
  | nil =>
    by_cases hroom : a.length < maxLength
    · exact (h.alloc_of_nil value hgarbage hroom).2.1
    · rwa [alloc_of_full value hgarbage (by omega)]

theorem Valid.release (h : a.Valid) (slot : Int) : (a.release slot).2.Valid := by
  unfold Arena.release
  split
  · exact h.free _
  · exact h

theorem Valid.replace (h : a.Valid) (slot : Int) (value : α) : (a.replace slot value).2.Valid := by
  unfold Arena.replace
  split
  · exact h.modify
  · exact h

theorem Valid.perform (h : a.Valid) (call : Call α) : (a.perform call).2.Valid := by
  cases call with
  | alloc value => exact h.alloc value
  | free slot => exact h.release slot
  | write slot value => exact h.replace slot value
  | writeAll f => exact h.map
  | clear => exact h.clear

end PropertyGraph.Arena

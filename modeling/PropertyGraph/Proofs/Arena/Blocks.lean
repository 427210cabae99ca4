import PropertyGraph.Proofs.Arena.Partition

/-!
# How many blocks an arena has

An arena in blocks consists of full blocks of which only the last may be shorter. Freeing a slot
takes the last block away if that leaves no live slot in it, and handing out a slot brings back or
begins one block at most, although a slot that waits may lie in any block that was given back. That is
so because blocks are given back from the end: the last slot freed in a block is the one
with which it is given back, so a block that is missing has a slot above all slots of the blocks
behind it.
-/

namespace PropertyGraph.Arena

variable {α : Type} {a a' : Arena α} {size slot block : Nat} {value : α} {log : Log}

/-! ### Counting the blocks -/

theorem Block.occupied_eq_zero_iff {block : Block α} :
    block.occupied = 0 ↔ ∀ offset, block.get? offset = none := by
  refine ⟨fun h _ => get?_eq_none_of_occupied h, fun h => Array.countP_eq_zero.mpr ?_⟩
  intro value hvalue
  obtain ⟨offset, hoffset⟩ := Array.mem_iff_getElem?.mp hvalue
  have hnone := h offset
  rw [get?, hoffset, Option.join_some] at hnone
  rw [hnone]
  exact Bool.false_ne_true

namespace Laid

theorem blockCount_eq (h : a.Laid) (hgrowth : a.growth = .blocks size) :
    a.blockCount = (a.length - 1) / size + 1 := by
  rw [blockCount, h.blocks_size, hgrowth, Growth.blockCount]

theorem occupied_eq_zero_iff (h : a.Laid) {B : Block α} (hB : a.blocks[block]? = some B) :
    B.occupied = 0 ↔ ∀ slot, (a.growth.place slot).1 = block → a.get? slot = none := by
  rw [Block.occupied_eq_zero_iff]
  constructor
  · rintro hfree slot rfl
    rw [h.get?_eq, blockGet?, hB, Option.bind_some, hfree]
  · intro hfree offset
    by_cases hoffset : offset < B.slots.size
    · have hblock := (Array.getElem?_eq_some_iff.mp hB).1
      rw [h.blocks_size] at hblock
      rw [h.slots_size _ _ hB] at hoffset
      have hplace := (Growth.place_blockStart_add h.positive hblock hoffset).1
      have hnone := hfree _ (congrArg Prod.fst hplace)
      rwa [h.get?_eq, hplace, blockGet?, hB, Option.bind_some] at hnone
    · exact Block.get?_eq_none_of_size_le (Nat.le_of_not_lt hoffset)

theorem sum_slotCount (length count : Nat) :
    ((List.range count).map ((Growth.blocks size).slotCount length)).sum =
      min length (count * size) := by
  induction count with
  | zero => simp
  | succ count ih =>
    rw [List.range_succ, List.map_append, List.sum_append, ih, List.map_singleton,
      List.sum_singleton, Nat.add_mul, Nat.one_mul, Growth.slotCount]
    omega

theorem sum_slots_size (h : a.Laid) (hgrowth : a.growth = .blocks size) :
    (a.blocks.toList.map (·.slots.size)).sum = a.length := by
  have hsizes : a.blocks.toList.map (·.slots.size) =
      (List.range a.blocks.size).map ((Growth.blocks size).slotCount a.length) := by
    apply List.ext_getElem?
    intro b
    rw [List.getElem?_map, List.getElem?_map, Array.getElem?_toList]
    by_cases hb : b < a.blocks.size
    · rw [List.getElem?_range hb, Array.getElem?_eq_getElem hb, Option.map_some, Option.map_some,
        h.slots_size b _ (Array.getElem?_eq_getElem hb), hgrowth]
    · rw [Array.getElem?_eq_none (by omega), List.getElem?_eq_none (by simpa using hb)]
      rfl
  have hpos : 0 < size := h.positive size hgrowth
  have hlast := Nat.lt_mul_div_succ (a.length - 1) hpos
  rw [hsizes, sum_slotCount, show a.blocks.size = _ from h.blockCount_eq hgrowth, Nat.mul_comm]
  omega

end Laid

/-! ### The order of the stack -/

/-- Above every slot on the stack there is one of each block that is missing before its own. -/
def Layered (a : Arena α) (size : Nat) : Prop :=
  ∀ above slot below, a.garbage = above ++ slot :: below → ∀ block, a.blockCount ≤ block →
    block < slot / size → ∃ other ∈ above, other / size = block

/-- The slot is live, no other slot in its block is, and the block is the last one but not the
first. -/
structure EmptiesLast (a : Arena α) (size slot : Nat) : Prop where
  live : (a.get? slot).isSome
  last : slot / size + 1 = a.blockCount
  not_first : 0 < slot / size
  others_free : ∀ other ≠ slot, other / size = slot / size → a.get? other = none

/-- The last block is given back if all its slots are free, unless it is the only one. -/
theorem Laid.blockCount_reclaim_cases (h : a.Laid) (hgrowth : a.growth = .blocks size) (block : Nat) :
    ((0 < block ∧ block + 1 = a.blockCount ∧ ∀ slot, slot / size = block → a.get? slot = none) ∧
      (a.reclaim block).blockCount + 1 = a.blockCount) ∨
    (¬ (0 < block ∧ block + 1 = a.blockCount ∧ ∀ slot, slot / size = block → a.get? slot = none) ∧
      (a.reclaim block).blockCount = a.blockCount) := by
  have hfree : block + 1 = a.blockCount → ((a.blocks[block]?.map (·.live)) = some 0 ↔
      ∀ slot, slot / size = block → a.get? slot = none) := by
    intro hlast
    have hblock : block < a.blocks.size := by
      rw [blockCount] at hlast
      omega
    obtain ⟨B, hB⟩ : ∃ B, a.blocks[block]? = some B := ⟨_, Array.getElem?_eq_getElem hblock⟩
    have hoccupied := h.occupied_eq_zero_iff hB
    simp only [hgrowth, Growth.place] at hoccupied
    rw [← hoccupied, hB, Option.map_some, Option.some.injEq, h.live_eq block _ hB]
  simp only [Arena.reclaim, hgrowth]
  split
  · next hlast =>
    obtain ⟨hpos, hcount, hlive⟩ := hlast
    refine .inl ⟨⟨hpos, hcount, (hfree hcount).mp hlive⟩, ?_⟩
    rw [blockCount, blockCount, Array.size_pop]
    omega
  · next hnot =>
    refine .inr ⟨?_, rfl⟩
    rintro ⟨hpos, hcount, hnone⟩
    exact hnot ⟨hpos, hcount, (hfree hcount).mpr hnone⟩

theorem Valid.blockCount_free_cases (h : a.Valid) (hgrowth : a.growth = .blocks size) (slot : Nat) :
    (a.EmptiesLast size slot ∧ (a.free slot).2.blockCount + 1 = a.blockCount) ∨
    (¬ a.EmptiesLast size slot ∧ (a.free slot).2.blockCount = a.blockCount) := by
  cases hlive : a.get? slot with
  | none =>
    refine .inr ⟨fun hempties => ?_, by rw [Valid.free_of_none hlive]⟩
    have hsome := hempties.live
    rw [hlive] at hsome
    cases hsome
  | some value =>
    have hplace : a.growth.place slot = (slot / size, slot % size) := by rw [hgrowth, Growth.place]
    have hvacated := h.toLaid.vacate hlive
    have hget : ∀ other, _ = if other = slot then none else a.get? other :=
      fun other => Laid.get?_vacate (lt_length_of_get? hlive)
    have hcount : (a.vacate slot (slot / size) (slot % size)).blockCount = a.blockCount :=
      Array.size_modify
    rw [hplace] at hvacated hget
    have hempties : a.EmptiesLast size slot ↔ 0 < slot / size ∧ slot / size + 1 = a.blockCount ∧
        ∀ other, other / size = slot / size →
          (a.vacate slot (slot / size) (slot % size)).get? other = none := by
      simp only [hget, ite_eq_left_iff]
      constructor
      · exact fun he => ⟨he.not_first, he.last, fun other hblock hne => he.others_free other hne hblock⟩
      · rintro ⟨hpos, hlast, hnone⟩
        exact ⟨by rw [hlive]; rfl, hlast, hpos, fun other hne hblock => hnone other hblock hne⟩
    have hcases := hvacated.blockCount_reclaim_cases hgrowth (slot / size)
    rwa [h.free_of_some hlive, hplace, hempties, ← hcount]

/-! ### Every call keeps to the order -/

/-- An arena in blocks of a size, whose stack is in the order of its blocks. -/
structure StackOrdered (a : Arena α) (size : Nat) : Prop where
  valid : a.Valid
  growth_eq : a.growth = .blocks size
  layered : a.Layered size

theorem layered_of_nil (hgarbage : a.garbage = []) : a.Layered size := by
  intro above slot below hstack
  rw [hgarbage] at hstack
  simp at hstack

namespace StackOrdered

/-- The slot on top of the stack lies in a block that is there or in the next one. -/
theorem top_le (h : a.StackOrdered size) {garbage : List Nat} (hgarbage : a.garbage = slot :: garbage) :
    slot / size ≤ a.blockCount := by
  by_contra hlt
  obtain ⟨other, hother, _⟩ := h.layered [] slot garbage hgarbage a.blockCount le_rfl (by omega)
  cases hother

theorem alloc (h : a.StackOrdered size) (value : α) : (a.alloc value).2.StackOrdered size ∧
    a.blockCount ≤ (a.alloc value).2.blockCount ∧
    (a.alloc value).2.blockCount ≤ a.blockCount + 1 := by
  have hvalid := h.valid.alloc value
  have hgrowth := (h.valid.growth_alloc value).trans h.growth_eq
  have hcount := h.valid.toLaid.blockCount_eq h.growth_eq
  have hcount' := hvalid.toLaid.blockCount_eq hgrowth
  have hstack : (a.alloc value).2.garbage = a.garbage.tail := garbage_alloc
  cases hgarbage : a.garbage with
  | nil =>
    rw [hgarbage, List.tail_nil] at hstack
    refine ⟨⟨hvalid, hgrowth, layered_of_nil hstack⟩, ?_⟩
    by_cases hroom : a.length < maxLength
    · rw [length_alloc_of_nil value hgarbage hroom, Nat.add_sub_cancel] at hcount'
      have hle : (a.length - 1) / size ≤ a.length / size := Nat.div_le_div_right (by omega)
      have hstep : (a.growth.place a.length).1 ≤ a.growth.blockCount a.length :=
        Growth.block_le_blockCount h.valid.positive
      rw [h.growth_eq] at hstep
      simp only [Growth.place, Growth.blockCount] at hstep
      omega
    · rw [alloc_of_full value hgarbage (Nat.le_of_not_lt hroom)]
      exact ⟨le_rfl, Nat.le_succ _⟩
  | cons slot garbage =>
    rw [hgarbage, List.tail_cons] at hstack
    have htop := h.top_le hgarbage
    have hcount' : (a.alloc value).2.blockCount = max a.blockCount (slot / size + 1) := by
      rw [hcount', h.valid.length_alloc_of_cons value hgarbage, hcount]
      rcases Nat.le_total a.length (slot + 1) with hle | hle
      · have hblock : (a.length - 1) / size ≤ slot / size := Nat.div_le_div_right (by omega)
        rw [max_eq_right hle, Nat.add_sub_cancel]
        omega
      · have hblock : slot / size ≤ (a.length - 1) / size := Nat.div_le_div_right (by omega)
        rw [max_eq_left hle]
        omega
    refine ⟨⟨hvalid, hgrowth, ?_⟩, by omega, by omega⟩
    intro above other below hsplit block hmissing hbefore
    rw [hstack] at hsplit
    obtain ⟨witness, hmem, hblock⟩ := h.layered (slot :: above) other below
      (by rw [hgarbage, hsplit, List.cons_append]) block (by omega) hbefore
    -- the slot that is handed out lies in a block that is not missing any more
    rcases List.mem_cons.mp hmem with rfl | hmem
    · omega
    · exact ⟨witness, hmem, hblock⟩

theorem free (h : a.StackOrdered size) (slot : Nat) : (a.free slot).2.StackOrdered size := by
  refine ⟨h.valid.free slot, (growth_free slot).trans h.growth_eq, ?_⟩
  cases hlive : a.get? slot with
  | none =>
    rw [Valid.free_of_none hlive]
    exact h.layered
  | some value =>
    have hstack := h.valid.garbage_free_of_some hlive
    have hslot : slot / size < a.blockCount := by
      have hle : slot / size ≤ (a.length - 1) / size :=
        Nat.div_le_div_right (by have := lt_length_of_get? hlive; omega)
      rw [h.valid.toLaid.blockCount_eq h.growth_eq]
      omega
    have hcount : slot / size ≤ (a.free slot).2.blockCount ∧
        ((a.free slot).2.blockCount = a.blockCount ∨ (a.free slot).2.blockCount = slot / size ∧
          slot / size + 1 = a.blockCount) := by
      rcases h.valid.blockCount_free_cases h.growth_eq slot with ⟨hempties, hcount⟩ | ⟨_, hcount⟩
      · have hlast := hempties.last
        omega
      · omega
    intro above other below hsplit block hmissing hbefore
    rw [hstack, List.cons_eq_append_iff] at hsplit
    rcases hsplit with ⟨rfl, heq⟩ | ⟨above, rfl, hsplit⟩
    · cases heq
      omega
    · by_cases hthere : a.blockCount ≤ block
      · obtain ⟨witness, hmem, hblock⟩ := h.layered above other below hsplit block hthere hbefore
        exact ⟨witness, List.mem_cons_of_mem _ hmem, hblock⟩
      · -- the block was given back just now, and the slot with which it was is on top
        exact ⟨slot, List.mem_cons_self, by omega⟩

theorem release (h : a.StackOrdered size) (slot : Int) : (a.release slot).2.StackOrdered size := by
  unfold Arena.release
  split
  · exact h.free _
  · exact h

theorem of_same (h : a.StackOrdered size) (hvalid : a'.Valid) (hgrowth : a'.growth = a.growth)
    (hgarbage : a'.garbage = a.garbage) (hblocks : a'.blocks.size = a.blocks.size) :
    a'.StackOrdered size where
  valid := hvalid
  growth_eq := hgrowth.trans h.growth_eq
  layered := by
    unfold Layered
    rw [hgarbage, blockCount, hblocks]
    exact h.layered

theorem perform (h : a.StackOrdered size) (call : Call α) : (a.perform call).2.StackOrdered size := by
  cases call with
  | alloc value => exact (h.alloc value).1
  | free slot => exact h.release slot
  | write slot value =>
    simp only [Arena.perform, Arena.replace]
    split
    · refine h.of_same h.valid.modify growth_modify garbage_modify ?_
      unfold Arena.modify
      split
      · exact Array.size_modify
      · rfl
    · exact h
  | writeAll f => exact h.of_same h.valid.map rfl rfl Array.size_map
  | clear => exact ⟨h.valid.clear, h.growth_eq, layered_of_nil rfl⟩

theorem run (h : a.StackOrdered size) (calls : List (Call α)) :
    (a.run log calls).1.StackOrdered size := by
  induction calls generalizing a log with
  | nil => exact h
  | cons call rest ih => exact ih (h.perform call)

end StackOrdered

/-! ### The layout -/

/-- An arena whose blocks are of a size, but that the last may be shorter, and grows and shrinks
by one block at a time. -/
structure BlocksAccounted (a : Arena α) (size : Nat) : Prop where
  blockCount_pos : 0 < a.blockCount
  slots_size : ∀ b B, a.blocks[b]? = some B → b + 1 < a.blockCount → B.slots.size = size
  sum_slots_size : (a.blocks.toList.map (·.slots.size)).sum = a.length
  /-- Exactly the slots below the length have a place in a block. -/
  lt_length_iff : ∀ slot, slot < a.length ↔ a.Indexes (slot / size) (slot % size)
  live_eq : ∀ (b : Nat) (B : Block α), a.blocks[b]? = some B → B.live = B.slots.countP Option.isSome
  lt_length : (a.blockCount - 1) * size < a.length ∨ a.length = 0 ∧ a.blockCount = 1
  blockCount_release : ∀ slot : Nat, a.EmptiesLast size slot →
    (a.release slot).2.blockCount + 1 = a.blockCount
  blockCount_release_of_not : ∀ slot : Int, (∀ n : Nat, slot = n → ¬ a.EmptiesLast size n) →
    (a.release slot).2.blockCount = a.blockCount
  blockCount_alloc : ∀ value, a.blockCount ≤ (a.alloc value).2.blockCount ∧
    (a.alloc value).2.blockCount ≤ a.blockCount + 1

theorem StackOrdered.blocksAccounted (h : a.StackOrdered size) : a.BlocksAccounted size where
  blockCount_pos := by
    rw [h.valid.toLaid.blockCount_eq h.growth_eq]
    exact Nat.succ_pos _
  slots_size := by
    intro b B hB hinner
    rw [h.valid.toLaid.blockCount_eq h.growth_eq] at hinner
    rw [h.valid.slots_size b B hB, h.growth_eq]
    refine Growth.slotCount_of_lt ?_
    have hle : (a.length - 1) / size ≤ a.length / size := Nat.div_le_div_right (by omega)
    omega
  sum_slots_size := h.valid.toLaid.sum_slots_size h.growth_eq
  lt_length_iff := by
    have hplace : ∀ slot, a.growth.place slot = (slot / size, slot % size) := by
      simp [h.growth_eq, Growth.place]
    intro slot
    constructor
    · intro hslot
      have hblock := h.valid.toLaid.exists_block hslot
      rwa [hplace] at hblock
    · rintro ⟨B, hB, hoffset⟩
      exact h.valid.toLaid.lt_length_of_offset (B := B) (by rw [hplace]; exact hB)
        (by rw [hplace]; exact hoffset)
  live_eq := h.valid.live_eq
  lt_length := by
    rw [h.valid.toLaid.blockCount_eq h.growth_eq, Nat.add_sub_cancel]
    rcases Nat.eq_zero_or_pos a.length with hzero | hpos
    · simp [hzero]
    · have hle := Nat.div_mul_le_self (a.length - 1) size
      exact .inl (by omega)
  blockCount_release := by
    intro slot hempties
    change (a.free slot).2.blockCount + 1 = _
    exact ((h.valid.blockCount_free_cases h.growth_eq slot).resolve_right
      fun hnot => hnot.1 hempties).2
  blockCount_release_of_not := by
    intro slot hnot
    unfold Arena.release
    split
    · next n hn =>
      have hslot : slot = n := Int.mem_toNat?.mp hn
      exact ((h.valid.blockCount_free_cases h.growth_eq n).resolve_left
        fun hempties => hnot n hslot hempties.1).2
    · rfl
  blockCount_alloc := fun value => (h.alloc value).2

/-- Whatever the size of the blocks and the calls, the blocks are accounted for. Blocks of no slot have one. -/
theorem blocksAccounted_run (size : Nat) (calls : List (Call α)) :
    BlocksAccounted ((inBlocks size : Arena α).run {} calls).1 (max size 1) :=
  have hopened : (inBlocks size : Arena α).StackOrdered (max size 1) :=
    ⟨valid_inBlocks size, rfl, layered_of_nil rfl⟩
  (hopened.run calls).blocksAccounted

end PropertyGraph.Arena

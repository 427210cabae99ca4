import Mathlib.Tactic
import PropertyGraph.Arena

/-!
# The layout of an arena

An arena is laid out densely: all its blocks but the last are full, and the slots of all blocks
together are exactly those below its length. Where that holds, every operation on blocks is an
operation on one slot, so nothing above the arena has to know of blocks.
-/

namespace PropertyGraph

/-! ### Where slots lie -/

namespace Growth

def IsPositive (g : Growth) : Prop := ∀ size, g = .blocks size → 0 < size

def blockCount : Growth → Nat → Nat
  | .blocks size, length => (length - 1) / size + 1
  | .linear, _ => 1

def slotCount : Growth → Nat → Nat → Nat
  | .blocks size, length, block => min size (length - block * size)
  | .linear, length, _ => length

variable {g : Growth} {length slot other block offset : Nat}

theorem place_injective (h : g.place slot = g.place other) : slot = other := by
  cases g with
  | linear => simpa [place] using h
  | blocks size =>
    obtain ⟨hblock, hoffset⟩ := Prod.mk.inj h
    rw [← Nat.div_add_mod slot size, ← Nat.div_add_mod other size, hblock, hoffset]

theorem blockStart_add_place : g.blockStart (g.place slot).1 + (g.place slot).2 = slot := by
  cases g with
  | linear => simp [place, blockStart]
  | blocks size => exact Nat.div_add_mod' slot size

theorem block_lt_of_lt (hg : g.IsPositive) (h : slot < length) :
    (g.place slot).1 < g.blockCount length := by
  cases g with
  | linear => simp [place, blockCount]
  | blocks size =>
    have hpos := hg size rfl
    have hle : slot / size ≤ (length - 1) / size := Nat.div_le_div_right (by omega)
    simpa [place, blockCount] using Nat.lt_succ_of_le hle

theorem offset_lt_of_lt (hg : g.IsPositive) (h : slot < length) :
    (g.place slot).2 < g.slotCount length (g.place slot).1 := by
  cases g with
  | linear => simpa [place, slotCount] using h
  | blocks size =>
    have hmod := Nat.mod_lt slot (hg size rfl)
    have hsplit := Nat.div_add_mod' slot size
    simp only [place, slotCount]
    omega

theorem place_blockStart_add (hg : g.IsPositive) (hblock : block < g.blockCount length)
    (hoffset : offset < g.slotCount length block) :
    g.place (g.blockStart block + offset) = (block, offset) ∧
      g.blockStart block + offset < length := by
  cases g with
  | linear =>
    simp only [blockCount, slotCount] at hblock hoffset
    simp only [place, blockStart, Prod.mk.injEq]
    omega
  | blocks size =>
    have hpos := hg size rfl
    simp only [slotCount] at hoffset
    have hlt : offset < size := by omega
    refine ⟨?_, by simp only [blockStart]; omega⟩
    simp only [place, blockStart, Prod.mk.injEq]
    constructor
    · rw [Nat.add_comm, Nat.add_mul_div_right _ _ hpos, Nat.div_eq_of_lt hlt, Nat.zero_add]
    · rw [Nat.add_comm, Nat.add_mul_mod_self_right, Nat.mod_eq_of_lt hlt]

theorem offset_eq_slotCount (hg : g.IsPositive) :
    (g.place length).2 = g.slotCount length (g.place length).1 := by
  cases g with
  | linear => rfl
  | blocks size =>
    have hmod := Nat.mod_lt length (hg size rfl)
    have hsplit := Nat.div_add_mod' length size
    simp only [place, slotCount]
    omega

theorem slotCount_eq_zero (h : (g.place length).1 = g.blockCount length) :
    g.slotCount length (g.place length).1 = 0 := by
  cases g with
  | linear => simp [place, blockCount] at h
  | blocks size =>
    simp only [place, blockCount] at h
    have hsplit := Nat.div_add_mod' (length - 1) size
    have hle := Nat.div_mul_le_self length size
    have hstart : length / size * size = (length - 1) / size * size + size := by
      rw [h, Nat.add_mul, Nat.one_mul]
    rcases Nat.eq_zero_or_pos size with hzero | hpos
    · simp [slotCount, hzero]
    · have hmod := Nat.mod_lt (length - 1) hpos
      simp only [slotCount, place]
      omega

theorem slotCount_succ (hg : g.IsPositive) (hblock : block ≤ (g.place length).1) :
    g.slotCount (length + 1) block =
      g.slotCount length block + if block = (g.place length).1 then 1 else 0 := by
  split
  · next heq =>
    cases g with
    | linear => rfl
    | blocks size =>
      have hmod := Nat.mod_lt length (hg size rfl)
      have hsplit := Nat.div_add_mod' length size
      simp only [place] at heq
      subst heq
      simp only [slotCount]
      omega
  · next hne =>
    cases g with
    | linear => exact absurd (Nat.le_zero.mp hblock) hne
    | blocks size =>
      have hmod := Nat.mod_lt length (hg size rfl)
      have hsplit := Nat.div_add_mod' length size
      have hlt : block < length / size := Nat.lt_of_le_of_ne hblock hne
      have hfull : (block + 1) * size ≤ length / size * size := Nat.mul_le_mul_right size hlt
      rw [Nat.add_mul] at hfull
      simp only [slotCount]
      omega

theorem blockCount_succ (hg : g.IsPositive) :
    g.blockCount (length + 1) = max (g.blockCount length) ((g.place length).1 + 1) := by
  cases g with
  | linear => rfl
  | blocks size =>
    have hle : (length - 1) / size ≤ length / size := Nat.div_le_div_right (by omega)
    simp only [blockCount, place, Nat.add_sub_cancel]
    omega

theorem blockCount_le_succ (hg : g.IsPositive) :
    g.blockCount length ≤ (g.place length).1 + 1 := by
  cases g with
  | linear => simp [place, blockCount]
  | blocks size =>
    have hle : (length - 1) / size ≤ length / size := Nat.div_le_div_right (by omega)
    simpa [blockCount, place] using hle

theorem block_le_blockCount (hg : g.IsPositive) : (g.place length).1 ≤ g.blockCount length := by
  cases g with
  | linear => simp [place, blockCount]
  | blocks size =>
    have hpos := hg size rfl
    have hstep : length / size ≤ (length - 1 + size) / size := Nat.div_le_div_right (by omega)
    rw [Nat.add_div_right _ hpos] at hstep
    simpa [place, blockCount] using hstep

/-- Bringing back everything up to a slot leaves its block as the last one. -/
theorem blockCount_succ_of_blocks {size : Nat} :
    (Growth.blocks size).blockCount (slot + 1) = slot / size + 1 := rfl

theorem slotCount_of_lt {size : Nat} (hblock : block < length / size) :
    (Growth.blocks size).slotCount length block = size := by
  have hfull : (block + 1) * size ≤ length / size * size := Nat.mul_le_mul_right size hblock
  have hle := Nat.div_mul_le_self length size
  rw [Nat.add_mul, Nat.one_mul] at hfull
  simp only [slotCount]
  omega

theorem blockCount_mul {size : Nat} (hpos : 0 < size) (hblock : 0 < block) :
    (Growth.blocks size).blockCount (block * size) = block := by
  obtain ⟨k, rfl⟩ : ∃ k, block = k + 1 := ⟨block - 1, by omega⟩
  have hlast : (k + 1) * size - 1 = size - 1 + k * size := by
    rw [Nat.add_mul]
    omega
  rw [blockCount, hlast, Nat.add_mul_div_right _ _ hpos, Nat.div_eq_of_lt (by omega), Nat.zero_add]

theorem slotCount_mono (h : length ≤ other) : g.slotCount length block ≤ g.slotCount other block := by
  cases g with
  | linear => exact h
  | blocks size =>
    simp only [slotCount]
    omega

theorem slotCount_succ_of_le {size : Nat} (hpos : 0 < size) (hblock : block ≤ slot / size) :
    (Growth.blocks size).slotCount (slot + 1) block =
      if block = slot / size then slot % size + 1 else size := by
  split
  · next heq =>
    have hmod := Nat.mod_lt slot hpos
    have hsplit := Nat.div_add_mod' slot size
    simp only [slotCount, heq]
    omega
  · next hne =>
    have hlast : slot / size ≤ (slot + 1) / size := Nat.div_le_div_right (Nat.le_succ slot)
    exact slotCount_of_lt (by omega)

end Growth

namespace Arena

variable {α : Type}

/-! ### One block -/

namespace Block

variable {block : Block α} {offset other : Nat} {value : α} {f : α → α}

theorem get?_put (h : offset < block.slots.size) :
    (block.put offset value).get? other = if other = offset then some value else block.get? other := by
  by_cases heq : offset = other
  · subst heq
    simp [get?, put, h]
  · simp [get?, put, heq, Ne.symm heq]

theorem get?_push :
    (block.push value).get? other =
      if other = block.slots.size then some value else block.get? other := by
  by_cases heq : other = block.slots.size <;> simp [get?, push, Array.getElem?_push, heq]

theorem get?_drop :
    (block.drop offset).get? other = if other = offset then none else block.get? other := by
  by_cases heq : offset = other
  · subst heq
    by_cases hlt : offset < block.slots.size <;> simp [get?, drop, hlt]
  · simp [get?, drop, heq, Ne.symm heq]

theorem get?_modify :
    (block.modify offset f).get? other =
      if other = offset then (block.get? other).map f else block.get? other := by
  by_cases heq : offset = other
  · subst heq
    cases hslot : block.slots[offset]? with
    | none => simp [get?, modify, Array.getElem?_modify, hslot]
    | some value => cases value <;> simp [get?, modify, Array.getElem?_modify, hslot]
  · simp [get?, modify, Array.getElem?_modify, heq, Ne.symm heq]

theorem get?_map : (block.map f).get? other = (block.get? other).map f := by
  cases hslot : block.slots[other]? with
  | none => simp [get?, map, hslot]
  | some value => cases value <;> simp [get?, map, hslot]

theorem get?_fillTo {count : Nat} : (block.fillTo count).get? other = block.get? other := by
  simp only [get?, fillTo, Array.getElem?_append]
  split
  · rfl
  · next hge =>
    rw [Array.getElem?_replicate, Array.getElem?_eq_none (by omega)]
    split <;> rfl

theorem size_fillTo {count : Nat} : (block.fillTo count).slots.size = max block.slots.size count := by
  simp only [fillTo, Array.size_append, Array.size_replicate]
  omega

theorem get?_eq_none_of_size_le (h : block.slots.size ≤ offset) : block.get? offset = none := by
  simp [get?, h]

/-- The number of live slots that a block should count. -/
def occupied (block : Block α) : Nat := block.slots.countP Option.isSome

theorem occupied_put (h : offset < block.slots.size) (hfree : block.get? offset = none) :
    (block.put offset value).occupied = block.occupied + 1 := by
  have hnone : block.slots[offset] = none := by
    simpa [get?, Array.getElem?_eq_getElem h] using hfree
  simp only [occupied, put, Array.setIfInBounds, h, ↓reduceDIte]
  rw [Array.countP_set h]
  simp [hnone]

theorem occupied_drop (hlive : block.get? offset = some value) :
    (block.drop offset).occupied + 1 = block.occupied := by
  have h : offset < block.slots.size := by
    by_contra hge
    rw [get?_eq_none_of_size_le (by omega)] at hlive
    cases hlive
  have hsome : block.slots[offset] = some value := by
    simpa [get?, Array.getElem?_eq_getElem h] using hlive
  have hpos : 0 < block.occupied :=
    Array.countP_pos_iff.mpr ⟨block.slots[offset], Array.getElem_mem h, by simp [hsome]⟩
  simp only [occupied, drop, Array.setIfInBounds, h, ↓reduceDIte] at hpos ⊢
  rw [Array.countP_set h]
  simp [hsome]
  omega

theorem occupied_push : (block.push value).occupied = block.occupied + 1 := by
  simp [occupied, push]

theorem occupied_modify : (block.modify offset f).occupied = block.occupied := by
  have hlist : ∀ (l : List (Option α)) (n : Nat),
      (l.modify n (·.map f)).countP Option.isSome = l.countP Option.isSome := by
    intro l n
    induction l generalizing n with
    | nil => simp
    | cons value rest ih => cases n <;> simp [List.countP_cons, ih]
  simpa [occupied, modify, ← Array.countP_toList] using hlist block.slots.toList offset

theorem occupied_map : (block.map f).occupied = block.occupied := by
  rw [occupied, map, Array.countP_map]
  exact Array.countP_congr (by intro value _; simp)

theorem occupied_fillTo {count : Nat} : (block.fillTo count).occupied = block.occupied := by
  simp [occupied, fillTo, Array.countP_append, Array.countP_replicate]

theorem get?_eq_none_of_occupied (h : block.occupied = 0) : block.get? offset = none := by
  cases hslot : block.slots[offset]? with
  | none => simp [get?, hslot]
  | some value =>
    have hmem : value ∈ block.slots := Array.mem_of_getElem? hslot
    have hnone := Array.countP_eq_zero.mp h value hmem
    simpa [get?, hslot] using hnone

end Block

/-! ### The whole arena -/

/-- The blocks hold exactly the slots below the length, all but the last are full, and each counts
its live slots. -/
structure Laid (a : Arena α) : Prop where
  positive : a.growth.IsPositive
  blocks_size : a.blocks.size = a.growth.blockCount a.length
  slots_size : ∀ (b : Nat) (B : Block α), a.blocks[b]? = some B →
    B.slots.size = a.growth.slotCount a.length b
  live_eq : ∀ (b : Nat) (B : Block α), a.blocks[b]? = some B → B.live = B.occupied

variable {a a' : Arena α} {slot other : Nat} {value : α} {f : α → α}

theorem get?_eq_ite :
    a.get? slot = if slot < a.length then
      a.blockGet? (a.growth.place slot).1 (a.growth.place slot).2 else none := by
  by_cases h : slot < a.length <;> simp [get?, locate?, h]

theorem lt_length_of_get? (h : a.get? slot = some value) : slot < a.length := by
  rw [get?_eq_ite] at h
  by_contra hge
  rw [if_neg hge] at h
  cases h

theorem get?_eq_none_of_length_le (h : a.length ≤ slot) : a.get? slot = none := by
  rw [get?_eq_ite, if_neg (by omega)]

namespace Laid

theorem lt_length_of_offset (h : a.Laid) {B : Block α}
    (hB : a.blocks[(a.growth.place slot).1]? = some B)
    (hoffset : (a.growth.place slot).2 < B.slots.size) : slot < a.length := by
  have hblock : (a.growth.place slot).1 < a.growth.blockCount a.length := by
    rw [← h.blocks_size]
    exact (Array.getElem?_eq_some_iff.mp hB).1
  rw [h.slots_size _ _ hB] at hoffset
  have hlt := (Growth.place_blockStart_add h.positive hblock hoffset).2
  rwa [Growth.blockStart_add_place] at hlt

theorem get?_eq (h : a.Laid) :
    a.get? slot = a.blockGet? (a.growth.place slot).1 (a.growth.place slot).2 := by
  rw [get?_eq_ite]
  split
  · rfl
  · next hge =>
    rw [blockGet?]
    cases hB : a.blocks[(a.growth.place slot).1]? with
    | none => rfl
    | some B =>
      have hout : B.slots.size ≤ (a.growth.place slot).2 := by
        by_contra hlt
        exact hge (h.lt_length_of_offset hB (by omega))
      exact (Block.get?_eq_none_of_size_le hout).symm

theorem exists_block (h : a.Laid) (hslot : slot < a.length) :
    ∃ B, a.blocks[(a.growth.place slot).1]? = some B ∧ (a.growth.place slot).2 < B.slots.size := by
  have hblock := Growth.block_lt_of_lt h.positive hslot
  rw [← h.blocks_size] at hblock
  refine ⟨a.blocks[(a.growth.place slot).1], Array.getElem?_eq_getElem hblock, ?_⟩
  rw [h.slots_size _ _ (Array.getElem?_eq_getElem hblock)]
  exact Growth.offset_lt_of_lt h.positive hslot

end Laid

/-! ### Changing one slot

`put`, `drop` and `modify` all change one block at one offset. -/

theorem get?_of_blocks_modify (g : Block α → Block α) (c : Option α → Option α)
    (hgrowth : a'.growth = a.growth) (hlength : a'.length = a.length)
    (hblocks : a'.blocks = a.blocks.modify (a.growth.place slot).1 g)
    (hnone : a.blocks[(a.growth.place slot).1]? = none → c none = none)
    (hcell : ∀ B, a.blocks[(a.growth.place slot).1]? = some B → ∀ offset, (g B).get? offset =
      if offset = (a.growth.place slot).2 then c (B.get? offset) else B.get? offset)
    (hslot : slot < a.length) :
    a'.get? other = if other = slot then c (a.get? other) else a.get? other := by
  rw [get?_eq_ite, get?_eq_ite, hgrowth, hlength]
  by_cases hother : other < a.length
  · rw [if_pos hother, if_pos hother, blockGet?, blockGet?, hblocks, Array.getElem?_modify]
    by_cases hblock : (a.growth.place slot).1 = (a.growth.place other).1
    · rw [if_pos hblock, ← hblock]
      cases hB : a.blocks[(a.growth.place slot).1]? with
      | none =>
        by_cases heq : other = slot
        · simpa [heq] using (hnone hB).symm
        · simp [heq]
      | some B =>
        rw [Option.map_some, Option.bind_some, Option.bind_some, hcell B hB]
        by_cases heq : other = slot
        · simp [heq]
        · have hoffset : (a.growth.place other).2 ≠ (a.growth.place slot).2 := by
            intro hoffset
            exact heq (Growth.place_injective (Prod.ext hblock.symm hoffset))
          rw [if_neg hoffset, if_neg heq]
    · have heq : other ≠ slot := fun heq => hblock (heq ▸ rfl)
      rw [if_neg hblock, if_neg heq]
  · have heq : other ≠ slot := by omega
    rw [if_neg hother, if_neg heq, if_neg hother]

theorem Laid.of_blocks_modify (h : a.Laid) (b : Nat) (g : Block α → Block α)
    (hgrowth : a'.growth = a.growth) (hlength : a'.length = a.length)
    (hblocks : a'.blocks = a.blocks.modify b g)
    (hsize : ∀ B, (g B).slots.size = B.slots.size)
    (hlive : ∀ B, a.blocks[b]? = some B → (g B).live = (g B).occupied) : a'.Laid where
  positive := hgrowth ▸ h.positive
  blocks_size := by
    rw [hblocks, hgrowth, hlength, Array.size_modify]
    exact h.blocks_size
  slots_size := by
    intro b' B hB
    rw [hgrowth, hlength]
    rw [hblocks, Array.getElem?_modify] at hB
    split at hB
    · obtain ⟨B', hB', rfl⟩ := Option.map_eq_some_iff.mp hB
      rw [hsize, h.slots_size _ _ hB']
    · exact h.slots_size _ _ hB
  live_eq := by
    intro b' B hB
    rw [hblocks, Array.getElem?_modify] at hB
    split at hB
    · next heq =>
      subst heq
      obtain ⟨B', hB', rfl⟩ := Option.map_eq_some_iff.mp hB
      exact hlive B' hB'
    · exact h.live_eq _ _ hB

theorem get?_modify :
    (a.modify slot f).get? other =
      if other = slot then (a.get? other).map f else a.get? other := by
  by_cases hslot : slot < a.length
  · have hmodify : a.modify slot f =
        { a with blocks := a.blocks.modify (a.growth.place slot).1
                  (·.modify (a.growth.place slot).2 f) } := by
      simp [modify, locate?, hslot]
    rw [hmodify]
    exact get?_of_blocks_modify (·.modify (a.growth.place slot).2 f) (·.map f) rfl rfl rfl
      (fun _ => rfl) (fun _ _ _ => Block.get?_modify) hslot
  · have hmodify : a.modify slot f = a := by simp [modify, locate?, hslot]
    rw [hmodify]
    split
    · next heq => rw [heq, get?_eq_none_of_length_le (by omega), Option.map_none]
    · rfl

theorem Laid.modify (h : a.Laid) : (a.modify slot f).Laid := by
  by_cases hslot : slot < a.length
  · have hmodify : a.modify slot f =
        { a with blocks := a.blocks.modify (a.growth.place slot).1
                  (·.modify (a.growth.place slot).2 f) } := by
      simp [Arena.modify, locate?, hslot]
    rw [hmodify]
    refine h.of_blocks_modify (a.growth.place slot).1 (·.modify (a.growth.place slot).2 f) rfl rfl
      rfl (fun B => by simp [Block.modify]) fun B hB => ?_
    rw [Block.occupied_modify]
    exact h.live_eq _ _ hB
  · simpa [Arena.modify, locate?, hslot] using h

theorem get?_map : (a.map f).get? slot = (a.get? slot).map f := by
  rw [get?_eq_ite, get?_eq_ite]
  by_cases hslot : slot < a.length
  · rw [if_pos hslot, if_pos (show slot < (a.map f).length from hslot)]
    simp only [map, blockGet?, Array.getElem?_map]
    cases a.blocks[(a.growth.place slot).1]? with
    | none => rfl
    | some B => exact Block.get?_map
  · rw [if_neg hslot, if_neg (show ¬slot < (a.map f).length from hslot)]
    rfl

theorem Laid.map (h : a.Laid) : (a.map f).Laid where
  positive := h.positive
  blocks_size := by simpa [Arena.map] using h.blocks_size
  slots_size := by
    intro b B hB
    rw [Arena.map, Array.getElem?_map] at hB
    obtain ⟨B', hB', rfl⟩ := Option.map_eq_some_iff.mp hB
    rw [Block.map, Array.size_map]
    exact h.slots_size _ _ hB'
  live_eq := by
    intro b B hB
    rw [Arena.map, Array.getElem?_map] at hB
    obtain ⟨B', hB', rfl⟩ := Option.map_eq_some_iff.mp hB
    rw [Block.occupied_map]
    exact h.live_eq _ _ hB'

/-! ### A new slot behind all others -/

namespace Laid

theorem block_le_size (h : a.Laid) : (a.growth.place a.length).1 ≤ a.blocks.size := by
  rw [h.blocks_size]
  exact Growth.block_le_blockCount h.positive

/-- The block in which the next slot lies, which may have to be begun. -/
theorem size_next_block (h : a.Laid) :
    (a.blocks[(a.growth.place a.length).1]?.getD {}).slots.size = (a.growth.place a.length).2 := by
  rw [Growth.offset_eq_slotCount h.positive]
  cases hB : a.blocks[(a.growth.place a.length).1]? with
  | some B => exact h.slots_size _ _ hB
  | none =>
    have hge := Array.getElem?_eq_none_iff.mp hB
    have hle := h.block_le_size
    rw [Growth.slotCount_eq_zero (by rw [← h.blocks_size]; omega)]
    rfl

theorem getElem?_blocks_append (h : a.Laid) (b : Nat) :
    (a.append value).blocks[b]? =
      if b = (a.growth.place a.length).1 then
        some ((a.blocks[(a.growth.place a.length).1]?.getD {}).push value)
      else a.blocks[b]? := by
  have hle := h.block_le_size
  simp only [Arena.append, Array.getElem?_modify]
  by_cases hb : b = (a.growth.place a.length).1
  · subst hb
    rw [if_pos rfl, if_pos rfl]
    by_cases hnew : (a.growth.place a.length).1 = a.blocks.size
    · simp [hnew]
    · rw [if_neg hnew, Array.getElem?_eq_getElem (by omega)]
      rfl
  · rw [if_neg (Ne.symm hb), if_neg hb]
    split
    · next hnew => rw [Array.getElem?_push, if_neg (by omega)]
    · rfl

theorem size_blocks_append (h : a.Laid) :
    (a.append value).blocks.size = max a.blocks.size ((a.growth.place a.length).1 + 1) := by
  have hle := h.block_le_size
  simp only [Arena.append, Array.size_modify]
  split
  · next hnew => rw [Array.size_push]; omega
  · omega

theorem append (h : a.Laid) : (a.append value).Laid where
  positive := h.positive
  blocks_size := by
    rw [h.size_blocks_append, h.blocks_size]
    exact (Growth.blockCount_succ h.positive).symm
  slots_size := by
    intro b B hB
    rw [h.getElem?_blocks_append] at hB
    split at hB
    · next hb =>
      cases hB
      subst hb
      calc ((a.blocks[(a.growth.place a.length).1]?.getD {}).push value).slots.size
          = (a.growth.place a.length).2 + 1 := by
            rw [Block.push, Array.size_push, h.size_next_block]
        _ = a.growth.slotCount (a.length + 1) (a.growth.place a.length).1 := by
            rw [Growth.slotCount_succ h.positive le_rfl, if_pos rfl,
              Growth.offset_eq_slotCount h.positive]
    · next hb =>
      have hlt := (Array.getElem?_eq_some_iff.mp hB).1
      rw [h.blocks_size] at hlt
      have hcount : a.growth.blockCount a.length ≤ (a.growth.place a.length).1 + 1 :=
        Growth.blockCount_le_succ h.positive
      calc B.slots.size = a.growth.slotCount a.length b := h.slots_size _ _ hB
        _ = a.growth.slotCount (a.length + 1) b := by
          rw [Growth.slotCount_succ h.positive (by omega), if_neg hb, Nat.add_zero]
  live_eq := by
    intro b B hB
    rw [h.getElem?_blocks_append] at hB
    split at hB
    · cases hB
      rw [Block.occupied_push]
      cases hnext : a.blocks[(a.growth.place a.length).1]? with
      | none => rfl
      | some B' => exact congrArg (· + 1) (h.live_eq _ _ hnext)
    · exact h.live_eq _ _ hB

theorem get?_append (h : a.Laid) :
    (a.append value).get? other = if other = a.length then some value else a.get? other := by
  rw [h.append.get?_eq, h.get?_eq, blockGet?, blockGet?]
  change ((a.append value).blocks[(a.growth.place other).1]?.bind
    (·.get? (a.growth.place other).2)) = _
  rw [h.getElem?_blocks_append]
  by_cases heq : other = a.length
  · subst heq
    rw [if_pos rfl, if_pos rfl, Option.bind_some, Block.get?_push, if_pos h.size_next_block.symm]
  · rw [if_neg heq]
    split
    · next hblock =>
      have hoffset : (a.growth.place other).2 ≠ (a.growth.place a.length).2 := by
        intro hoffset
        exact heq (Growth.place_injective (Prod.ext hblock hoffset))
      rw [Option.bind_some, Block.get?_push, if_neg (by rw [h.size_next_block]; exact hoffset),
        hblock]
      cases a.blocks[(a.growth.place a.length).1]? with
      | none => simp [Block.get?]
      | some B => rfl
    · rfl

end Laid

/-! ### Filling and emptying a slot -/

namespace Laid

theorem fill (h : a.Laid) (hslot : slot < a.length) (hfree : a.get? slot = none) :
    (a.fill (a.growth.place slot).1 (a.growth.place slot).2 value).Laid := by
  obtain ⟨B', hB', hoffset⟩ := h.exists_block hslot
  refine h.of_blocks_modify (a.growth.place slot).1 (·.put (a.growth.place slot).2 value) rfl rfl
    rfl (fun B => by simp [Block.put]) fun B hB => ?_
  rw [hB', Option.some.injEq] at hB
  subst hB
  rw [h.get?_eq, blockGet?, hB', Option.bind_some] at hfree
  rw [Block.occupied_put hoffset hfree, Block.put, h.live_eq _ _ hB']

theorem get?_fill (h : a.Laid) (hslot : slot < a.length) :
    (a.fill (a.growth.place slot).1 (a.growth.place slot).2 value).get? other =
      if other = slot then some value else a.get? other := by
  obtain ⟨B', hB', hoffset⟩ := h.exists_block hslot
  refine get?_of_blocks_modify (·.put (a.growth.place slot).2 value) (fun _ => some value) rfl rfl
    rfl (fun hnone => ?_) (fun B hB offset => ?_) hslot
  · rw [hB'] at hnone
    cases hnone
  · rw [hB', Option.some.injEq] at hB
    subst hB
    exact Block.get?_put hoffset

theorem vacate (h : a.Laid) (hlive : a.get? slot = some value) :
    (a.vacate slot (a.growth.place slot).1 (a.growth.place slot).2).Laid := by
  refine h.of_blocks_modify (a.growth.place slot).1 (·.drop (a.growth.place slot).2) rfl rfl
    rfl (fun B => by simp [Block.drop]) fun B hB => ?_
  rw [h.get?_eq, blockGet?, hB, Option.bind_some] at hlive
  have hcount := Block.occupied_drop hlive
  rw [← h.live_eq _ _ hB] at hcount
  simp only [Block.drop] at hcount ⊢
  omega

theorem get?_vacate (hslot : slot < a.length) :
    (a.vacate slot (a.growth.place slot).1 (a.growth.place slot).2).get? other =
      if other = slot then none else a.get? other :=
  get?_of_blocks_modify (·.drop (a.growth.place slot).2) (fun _ => none) rfl rfl rfl
    (fun _ => rfl) (fun _ _ _ => Block.get?_drop) hslot

/-! ### Bringing blocks back -/

variable {size : Nat}

theorem getElem?_blocks_regrow (hgrowth : a.growth = .blocks size) (b : Nat) :
    (a.regrow slot).blocks[b]? =
      ((a.blocks ++ Array.replicate (slot / size + 1 - a.blocks.size) ({} : Block α))[b]?).map fun B =>
        if b < a.length / size then B
        else B.fillTo (if b = slot / size then slot % size + 1 else size) := by
  simp only [regrow, hgrowth, Array.getElem?_mapIdx]

/-- What a block holds that is brought back is what was there, or nothing. -/
theorem blockGet?_regrow (hgrowth : a.growth = .blocks size) (b offset : Nat) :
    (a.regrow slot).blockGet? b offset = a.blockGet? b offset := by
  have hkeep : ∀ B : Block α,
      (if b < a.length / size then B
        else B.fillTo (if b = slot / size then slot % size + 1 else size)).get? offset =
      B.get? offset := by
    intro B
    by_cases hfull : b < a.length / size
    · rw [if_pos hfull]
    · rw [if_neg hfull, Block.get?_fillTo]
  rw [blockGet?, blockGet?, getElem?_blocks_regrow hgrowth, Array.getElem?_append]
  by_cases hlt : b < a.blocks.size
  · rw [if_pos hlt]
    cases a.blocks[b]? with
    | none => rfl
    | some B => exact hkeep B
  · rw [if_neg hlt, Array.getElem?_eq_none (show a.blocks.size ≤ b by omega),
      Array.getElem?_replicate]
    by_cases hnew : b - a.blocks.size < slot / size + 1 - a.blocks.size
    · rw [if_pos hnew]
      exact hkeep {}
    · rw [if_neg hnew]
      rfl

theorem of_getElem?_append_replicate (h : a.Laid) {count b : Nat} {B : Block α}
    (hB : (a.blocks ++ Array.replicate count ({} : Block α))[b]? = some B) :
    B.slots.size ≤ a.growth.slotCount a.length b ∧ B.live = B.occupied := by
  rw [Array.getElem?_append] at hB
  split at hB
  · exact ⟨(h.slots_size _ _ hB).le, h.live_eq _ _ hB⟩
  · rw [Array.getElem?_replicate] at hB
    split at hB
    · cases hB
      exact ⟨Nat.zero_le _, rfl⟩
    · cases hB

theorem size_block_regrow (h : a.Laid) (hgrowth : a.growth = .blocks size) (hslot : a.length ≤ slot)
    {b : Nat} {B : Block α} (hb : b ≤ slot / size)
    (hB : (a.blocks ++ Array.replicate (slot / size + 1 - a.blocks.size) ({} : Block α))[b]? = some B) :
    (if b < a.length / size then B
      else B.fillTo (if b = slot / size then slot % size + 1 else size)).slots.size =
        (Growth.blocks size).slotCount (slot + 1) b := by
  have hpos : 0 < size := h.positive size hgrowth
  by_cases hfull : b < a.length / size
  · have hlast : a.length / size ≤ (slot + 1) / size := Nat.div_le_div_right (by omega)
    have hlt : b < a.blocks.size := by
      have hle := h.block_le_size
      rw [hgrowth] at hle
      exact Nat.lt_of_lt_of_le hfull hle
    rw [Array.getElem?_append_left hlt] at hB
    rw [if_pos hfull, h.slots_size _ _ hB, hgrowth, Growth.slotCount_of_lt hfull,
      Growth.slotCount_of_lt (Nat.lt_of_lt_of_le hfull hlast)]
  · have hcut := (h.of_getElem?_append_replicate hB).1
    rw [hgrowth] at hcut
    rw [if_neg hfull, Block.size_fillTo, ← Growth.slotCount_succ_of_le hpos hb]
    exact max_eq_right (hcut.trans (Growth.slotCount_mono (by omega)))

theorem regrow (h : a.Laid) (hgrowth : a.growth = .blocks size) (hslot : a.length ≤ slot) :
    (a.regrow slot).Laid := by
  have hgrowth' : (a.regrow slot).growth = .blocks size := by simp [Arena.regrow, hgrowth]
  have hlength' : (a.regrow slot).length = slot + 1 := by simp [Arena.regrow, hgrowth]
  have hcount : a.blocks.size ≤ slot / size + 1 := by
    have hlast : (a.length - 1) / size ≤ slot / size := Nat.div_le_div_right (by omega)
    rw [h.blocks_size, hgrowth, Growth.blockCount]
    omega
  constructor
  case positive => exact hgrowth' ▸ hgrowth ▸ h.positive
  case blocks_size =>
    rw [hgrowth', hlength', Growth.blockCount_succ_of_blocks]
    simp only [Arena.regrow, hgrowth, Array.size_mapIdx, Array.size_append, Array.size_replicate]
    omega
  case slots_size =>
    intro b B hB
    rw [getElem?_blocks_regrow hgrowth] at hB
    obtain ⟨B', hB', rfl⟩ := Option.map_eq_some_iff.mp hB
    have hlt := (Array.getElem?_eq_some_iff.mp hB').1
    rw [Array.size_append, Array.size_replicate] at hlt
    rw [hgrowth', hlength']
    exact h.size_block_regrow hgrowth hslot (by omega) hB'
  case live_eq =>
    intro b B hB
    rw [getElem?_blocks_regrow hgrowth] at hB
    obtain ⟨B', hB', rfl⟩ := Option.map_eq_some_iff.mp hB
    have hlive := (h.of_getElem?_append_replicate hB').2
    split
    · exact hlive
    · rw [Block.occupied_fillTo]
      exact hlive

theorem get?_regrow (h : a.Laid) (hgrowth : a.growth = .blocks size) (hslot : a.length ≤ slot) :
    (a.regrow slot).get? other = a.get? other := by
  rw [(h.regrow hgrowth hslot).get?_eq, h.get?_eq, blockGet?_regrow hgrowth]
  simp [Arena.regrow, hgrowth]

end Laid

/-! ### Giving the last block back -/

theorem growth_reclaim {block : Nat} : (a.reclaim block).growth = a.growth := by
  unfold reclaim
  split
  · rfl
  · split <;> rfl

namespace Laid

theorem reclaim (h : a.Laid) (block : Nat) : (a.reclaim block).Laid := by
  unfold Arena.reclaim
  split
  · exact h
  · next size hgrowth =>
    split
    · next hlast =>
      obtain ⟨hblock, hcount, hempty⟩ := hlast
      have hpos : 0 < size := h.positive size hgrowth
      have hbefore : block ≤ a.length / size := by
        have hblocks := h.blocks_size
        have hle : (a.length - 1) / size ≤ a.length / size := Nat.div_le_div_right (by omega)
        rw [hgrowth, Growth.blockCount] at hblocks
        omega
      constructor
      case positive => exact hgrowth ▸ h.positive
      case blocks_size =>
        rw [Array.size_pop, hgrowth, Growth.blockCount_mul hpos (by omega)]
        omega
      case slots_size =>
        intro b B hB
        rw [Array.getElem?_pop] at hB
        split at hB
        · have hb : b < block := by omega
          rw [h.slots_size _ _ hB, hgrowth, Growth.slotCount_of_lt (Nat.lt_of_lt_of_le hb hbefore),
            Growth.slotCount_of_lt (by rwa [Nat.mul_div_cancel _ hpos])]
        · cases hB
      case live_eq =>
        intro b B hB
        rw [Array.getElem?_pop] at hB
        split at hB
        · exact h.live_eq _ _ hB
        · cases hB
    · exact h

theorem get?_reclaim (h : a.Laid) (block : Nat) : (a.reclaim block).get? other = a.get? other := by
  have hreclaim := h.reclaim block
  rw [hreclaim.get?_eq, h.get?_eq, growth_reclaim, blockGet?, blockGet?]
  unfold Arena.reclaim
  split
  · rfl
  · split
    · next hlast =>
      obtain ⟨_, hcount, hempty⟩ := hlast
      rw [Array.getElem?_pop]
      split
      · rfl
      · next hge =>
        by_cases heq : (a.growth.place other).1 = block
        · obtain ⟨B, hB, hlive⟩ := Option.map_eq_some_iff.mp hempty
          rw [h.live_eq _ _ hB] at hlive
          rw [heq, hB, Option.bind_none, Option.bind_some, Block.get?_eq_none_of_occupied hlive]
        · have hnone : a.blocks[(a.growth.place other).1]? = none :=
            Array.getElem?_eq_none (by omega)
          rw [hnone]
    · rfl

end Laid

end Arena

end PropertyGraph

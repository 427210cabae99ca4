import PropertyGraph.Proofs.Arena.Layout

/-!
# Slots handed out and taken back

The slots ever handed out are those that are live and those that wait on the stack, and no slot is
both. A slot below the length that is not live waits, and so does everything above the length up to
the highest slot that waits. So a slot handed out is never live already, whether it comes from the
stack, from a block that was given back, or from behind all others.
-/

namespace PropertyGraph.Arena

variable {α : Type} {a : Arena α} {slot other : Nat} {value : α} {f : α → α} {make : Nat → α}

/-! ### Listing the live slots -/

namespace Laid

theorem mem_toList (h : a.Laid) : (slot, value) ∈ a.toList ↔ a.get? slot = some value := by
  simp only [toList, List.mem_flatMap, List.mem_filterMap, Prod.exists,
    List.mem_zipIdx_iff_getElem?, Array.getElem?_toList, Option.map_eq_some_iff, Prod.mk.injEq]
  constructor
  · rintro ⟨B, b, hB, cell, offset, hcell, held, hheld, hslot, rfl⟩
    obtain ⟨hlt, hget⟩ := Array.getElem?_eq_some_iff.mp hcell
    have hblock := (Array.getElem?_eq_some_iff.mp hB).1
    rw [h.blocks_size] at hblock
    rw [h.slots_size _ _ hB] at hlt
    have hplace := (Growth.place_blockStart_add h.positive hblock hlt).1
    rw [hslot] at hplace
    rw [h.get?_eq, hplace, blockGet?, hB, Option.bind_some, Block.get?, hcell, hheld]
    rfl
  · intro hslot
    have hlt := lt_length_of_get? hslot
    obtain ⟨B, hB, hoffset⟩ := h.exists_block hlt
    rw [h.get?_eq, blockGet?, hB, Option.bind_some, Block.get?] at hslot
    refine ⟨B, _, hB, B.slots[(a.growth.place slot).2], _, Array.getElem?_eq_getElem hoffset, value,
      ?_, Growth.blockStart_add_place, rfl⟩
    rw [Array.getElem?_eq_getElem hoffset] at hslot
    exact hslot

theorem mem_map_values {β : Type} {read : α → β} {x : β} (h : a.Laid) :
    x ∈ a.values.map read ↔ ∃ slot, (a.get? slot).map read = some x := by
  rw [values, List.map_map, List.mem_map]
  constructor
  · rintro ⟨⟨slot, value⟩, hmem, rfl⟩
    exact ⟨slot, Option.map_eq_some_iff.mpr ⟨value, h.mem_toList.mp hmem, rfl⟩⟩
  · rintro ⟨slot, hslot⟩
    obtain ⟨value, hvalue, rfl⟩ := Option.map_eq_some_iff.mp hslot
    exact ⟨(slot, value), h.mem_toList.mpr hvalue, rfl⟩

theorem blockStart_lt (h : a.Laid) {b b' offset offset' : Nat} {B B' : Block α}
    (hB : a.blocks[b]? = some B) (hB' : a.blocks[b']? = some B') (hoffset : offset < B.slots.size)
    (hlt : b < b') :
    a.growth.blockStart b + offset < a.growth.blockStart b' + offset' := by
  rw [h.slots_size _ _ hB] at hoffset
  have hblock' := (Array.getElem?_eq_some_iff.mp hB').1
  rw [h.blocks_size] at hblock'
  cases hgrowth : a.growth with
  | linear =>
    simp only [hgrowth, Growth.blockCount] at hblock'
    omega
  | blocks size =>
    simp only [hgrowth, Growth.slotCount] at hoffset
    have hle : (b + 1) * size ≤ b' * size := Nat.mul_le_mul_right size hlt
    rw [Nat.add_mul, Nat.one_mul] at hle
    simp only [Growth.blockStart]
    omega

theorem pairwise_lt_toList (h : a.Laid) : a.toList.Pairwise (·.1 < ·.1) := by
  have hindex : ∀ {β : Type} (l : List β), l.zipIdx.Pairwise (·.2 < ·.2) := by
    intro β l
    rw [← List.pairwise_map (f := Prod.snd) (R := (· < ·)), List.zipIdx_map_snd]
    exact List.pairwise_lt_range'
  have hread : ∀ {β : Type} {l : List β} {x : β × Nat}, x ∈ l.zipIdx → l[x.2]? = some x.1 :=
    fun hx => List.mem_zipIdx_iff_getElem?.mp hx
  rw [toList, List.pairwise_flatMap]
  constructor
  · rintro ⟨B, b⟩ _
    refine (hindex B.slots.toList).filterMap _ ?_
    rintro ⟨cell, offset⟩ ⟨cell', offset'⟩ hlt x hx y hy
    obtain ⟨_, _, rfl⟩ := Option.map_eq_some_iff.mp hx
    obtain ⟨_, _, rfl⟩ := Option.map_eq_some_iff.mp hy
    exact Nat.add_lt_add_left hlt _
  · refine (hindex a.blocks.toList).imp_of_mem ?_
    rintro ⟨B, b⟩ ⟨B', b'⟩ hB hB' hlt x hx y hy
    obtain ⟨⟨cell, offset⟩, hcell, hx⟩ := List.mem_filterMap.mp hx
    obtain ⟨⟨cell', offset'⟩, hcell', hy⟩ := List.mem_filterMap.mp hy
    obtain ⟨_, _, rfl⟩ := Option.map_eq_some_iff.mp hx
    obtain ⟨_, _, rfl⟩ := Option.map_eq_some_iff.mp hy
    have hoffset := (List.getElem?_eq_some_iff.mp (hread hcell)).1
    rw [Array.length_toList] at hoffset
    exact h.blockStart_lt (by simpa using hread hB) (by simpa using hread hB') hoffset hlt

end Laid

def slots (a : Arena α) : List Nat := a.toList.map (·.1)

namespace Laid

theorem mem_slots (h : a.Laid) : slot ∈ a.slots ↔ (a.get? slot).isSome := by
  simp only [slots, List.mem_map, Prod.exists, exists_and_right, exists_eq_right, h.mem_toList,
    Option.isSome_iff_exists]

theorem pairwise_lt_slots (h : a.Laid) : a.slots.Pairwise (· < ·) :=
  List.pairwise_map.mpr h.pairwise_lt_toList

theorem nodup_slots (h : a.Laid) : a.slots.Nodup :=
  h.pairwise_lt_slots.imp fun hlt => Nat.ne_of_lt hlt

theorem nodup_map_values {β : Type} {read : α → β} (h : a.Laid)
    (hinj : ∀ i j x, (a.get? i).map read = some x → (a.get? j).map read = some x → i = j) :
    (a.values.map read).Nodup := by
  rw [values, List.map_map]
  refine List.Nodup.map_on ?_ (h.pairwise_lt_toList.imp fun hlt heq => Nat.ne_of_lt hlt (congrArg _ heq))
  rintro ⟨i, v⟩ hv ⟨j, w⟩ hw heq
  have hi := h.mem_toList.mp hv
  have hj := h.mem_toList.mp hw
  have hsame : i = j := hinj i j (read w) (by rw [hi]; exact congrArg some heq) (by rw [hj]; rfl)
  subst hsame
  rw [hi] at hj
  rw [Option.some.inj hj]

end Laid

/-! ### What holds of every arena in use -/

/-- An arena that is laid out, counts its live slots, and keeps every other slot that was handed out
on its stack, once. -/
structure Valid (a : Arena α) : Prop extends a.Laid where
  size_eq : a.size = a.slots.length
  garbage_nodup : a.garbage.Nodup
  garbage_free : ∀ slot ∈ a.garbage, a.get? slot = none
  /-- A slot that is not live waits. -/
  waiting : ∀ slot < a.length, a.get? slot = none → slot ∈ a.garbage
  /-- What was given back waits, up to the highest slot that does. -/
  reclaimed : ∀ slot ∈ a.garbage, ∀ below, a.length ≤ below → below ≤ slot → below ∈ a.garbage
  /-- An arena in one block gives nothing back. -/
  linear_garbage : a.growth = .linear → ∀ slot ∈ a.garbage, slot < a.length
  length_le : a.length ≤ maxLength
  garbage_lt : ∀ slot ∈ a.garbage, slot < maxLength

theorem valid_empty {g : Growth} (hg : g.IsPositive) : Valid ({ growth := g } : Arena α) where
  positive := hg
  blocks_size := by cases g <;> simp [Growth.blockCount]
  slots_size := by
    intro b B hB
    obtain ⟨hlt, rfl⟩ := Array.getElem?_eq_some_iff.mp hB
    cases g <;> simp [Growth.slotCount]
  live_eq := by
    intro b B hB
    obtain ⟨hlt, rfl⟩ := Array.getElem?_eq_some_iff.mp hB
    simp [Block.occupied]
  size_eq := by simp [slots, toList]
  garbage_nodup := List.nodup_nil
  garbage_free := by simp
  waiting := by simp
  reclaimed := by simp
  linear_garbage := by simp
  length_le := Nat.zero_le _
  garbage_lt := by simp

theorem valid_inBlocks (size : Nat) : (inBlocks size : Arena α).Valid := by
  refine valid_empty fun size' h => ?_
  cases h
  omega

theorem valid_linear : (linear : Arena α).Valid :=
  valid_empty fun size h => by cases h

theorem get?_empty {g : Growth} : ({ growth := g } : Arena α).get? slot = none :=
  get?_eq_none_of_length_le (Nat.zero_le slot)

namespace Valid

theorem clear (h : a.Valid) : a.clear.Valid := valid_empty h.positive

theorem lt_maxLength (h : a.Valid) (hslot : a.get? slot = some value) : slot < maxLength :=
  Nat.lt_of_lt_of_le (lt_length_of_get? hslot) h.length_le

theorem of_isSome_eq {a' : Arena α} (h : a.Valid) (hlaid : a'.Laid)
    (hlive : ∀ slot, (a'.get? slot).isSome = (a.get? slot).isSome) (hgrowth : a'.growth = a.growth)
    (hgarbage : a'.garbage = a.garbage) (hlength : a'.length = a.length) (hsize : a'.size = a.size) :
    a'.Valid where
  toLaid := hlaid
  size_eq := by
    have hperm : a'.slots.Perm a.slots :=
      (List.perm_ext_iff_of_nodup hlaid.nodup_slots h.nodup_slots).mpr fun slot => by
        rw [hlaid.mem_slots, h.mem_slots, hlive]
    rw [hsize, h.size_eq, hperm.length_eq]
  garbage_nodup := hgarbage ▸ h.garbage_nodup
  garbage_free := by
    intro slot hslot
    rw [hgarbage] at hslot
    have hfree := hlive slot
    rw [h.garbage_free slot hslot] at hfree
    exact Option.isSome_eq_false_iff.mp hfree |> Option.isNone_iff_eq_none.mp
  waiting := by
    intro slot hslot hfree
    have hfree' := hlive slot
    rw [hfree] at hfree'
    rw [hgarbage]
    exact h.waiting slot (hlength ▸ hslot)
      (Option.isNone_iff_eq_none.mp (Option.isSome_eq_false_iff.mp hfree'.symm))
  reclaimed := by
    rw [hgarbage, hlength]
    exact h.reclaimed
  linear_garbage := by
    rw [hgarbage, hlength, hgrowth]
    exact h.linear_garbage
  length_le := hlength ▸ h.length_le
  garbage_lt := hgarbage ▸ h.garbage_lt

theorem modify (h : a.Valid) : (a.modify slot f).Valid := by
  refine h.of_isSome_eq h.toLaid.modify (fun other => ?_) ?_ ?_ ?_ ?_
  · rw [get?_modify]
    split <;> simp
  all_goals
    unfold Arena.modify
    split <;> rfl

theorem map (h : a.Valid) : (a.map f).Valid :=
  h.of_isSome_eq h.toLaid.map (fun slot => by rw [get?_map, Option.isSome_map]) rfl rfl rfl rfl

/-! ### Handing a slot out -/

theorem slots_perm_of_fill {a' : Arena α} (h : a.Laid) (h' : a'.Laid) (hfree : a.get? slot = none)
    (hget : ∀ other, a'.get? other = if other = slot then some value else a.get? other) :
    a'.slots.Perm (slot :: a.slots) := by
  have hnot : slot ∉ a.slots := by simp [h.mem_slots, hfree]
  refine (List.perm_ext_iff_of_nodup h'.nodup_slots
    (List.nodup_cons.mpr ⟨hnot, h.nodup_slots⟩)).mpr fun other => ?_
  rw [h'.mem_slots, hget, List.mem_cons, h.mem_slots]
  by_cases heq : other = slot <;> simp [heq]

theorem exists_regrown (h : a.Valid) {garbage : List Nat} (hgarbage : a.garbage = slot :: garbage) :
    ∃ b : Arena α, (if a.length ≤ slot then { a with garbage }.regrow slot else { a with garbage }) = b
      ∧ b.Laid ∧ (∀ other, b.get? other = a.get? other) ∧ b.growth = a.growth ∧ b.size = a.size ∧
      b.garbage = garbage ∧ b.length = max a.length (slot + 1) := by
  have hlaid : ({ a with garbage } : Arena α).Laid :=
    ⟨h.positive, h.blocks_size, h.slots_size, h.live_eq⟩
  have hget : ∀ other, ({ a with garbage } : Arena α).get? other = a.get? other := fun _ => rfl
  refine ⟨_, rfl, ?_⟩
  split
  · next hge =>
    obtain ⟨size, hgrowth⟩ : ∃ size, a.growth = .blocks size := by
      cases hgrowth : a.growth with
      | linear =>
        have hlt := h.linear_garbage hgrowth slot (by simp [hgarbage])
        omega
      | blocks size => exact ⟨size, rfl⟩
    refine ⟨hlaid.regrow hgrowth hge, fun other => ?_, ?_, ?_, ?_, ?_⟩
    · rw [hlaid.get?_regrow hgrowth hge, hget]
    all_goals simp only [regrow, hgrowth]
    omega
  · next hlt =>
    refine ⟨hlaid, hget, rfl, rfl, rfl, ?_⟩
    change a.length = _
    omega

/-- Once the slot on top of the stack is filled, the rest of the stack waits. -/
theorem of_fill_top {a' : Arena α} {garbage : List Nat} (h : a.Valid)
    (hgarbage : a.garbage = slot :: garbage) (hlaid : a'.Laid)
    (hget : ∀ other, a'.get? other = if other = slot then some value else a.get? other)
    (hgrowth : a'.growth = a.growth) (hsize : a'.size = a.size + 1) (hrest : a'.garbage = garbage)
    (hlength : a'.length = max a.length (slot + 1)) : a'.Valid := by
  have hmem : slot ∈ a.garbage := hgarbage ▸ List.mem_cons_self
  obtain ⟨hnew, hnodup⟩ := List.nodup_cons.mp (hgarbage ▸ h.garbage_nodup)
  have hwaits : ∀ other, other ∈ a'.garbage ↔ other ∈ a.garbage ∧ other ≠ slot := by
    intro other
    rw [hrest, hgarbage, List.mem_cons]
    constructor
    · exact fun hother => ⟨.inr hother, fun heq => hnew (heq ▸ hother)⟩
    · exact fun ⟨hother, hne⟩ => hother.resolve_left hne
  constructor
  case toLaid => exact hlaid
  case size_eq =>
    have hperm := slots_perm_of_fill h.toLaid hlaid (h.garbage_free slot hmem) hget
    rw [hsize, h.size_eq, hperm.length_eq, List.length_cons]
  case garbage_nodup => exact hrest ▸ hnodup
  case garbage_free =>
    intro other hother
    obtain ⟨hother, hne⟩ := (hwaits other).mp hother
    rw [hget, if_neg hne]
    exact h.garbage_free other hother
  case waiting =>
    intro other hlt hnone
    rw [hget] at hnone
    split at hnone
    · cases hnone
    · next hne =>
      refine (hwaits other).mpr ⟨?_, hne⟩
      by_cases hold : other < a.length
      · exact h.waiting other hold hnone
      · exact h.reclaimed slot hmem other (by omega) (by omega)
  case reclaimed =>
    intro other hother below hge hle
    obtain ⟨hother, _⟩ := (hwaits other).mp hother
    exact (hwaits below).mpr ⟨h.reclaimed other hother below (by omega) hle, by omega⟩
  case linear_garbage =>
    intro hlinear other hother
    have hlt := h.linear_garbage (hgrowth ▸ hlinear) other ((hwaits other).mp hother).1
    omega
  case length_le =>
    have hlt := h.garbage_lt slot hmem
    have hle := h.length_le
    omega
  case garbage_lt => exact fun other hother => h.garbage_lt other ((hwaits other).mp hother).1

theorem allocWith_of_cons (h : a.Valid) (make : Nat → α) {garbage : List Nat}
    (hgarbage : a.garbage = slot :: garbage) :
    ∃ a' : Arena α, a.allocWith make = (.ok slot, a') ∧ a'.Valid ∧ a'.growth = a.growth ∧
      ∀ other, a'.get? other = if other = slot then some (make slot) else a.get? other := by
  obtain ⟨b, hb, hlaid, hget, hgrowth, hsize, hrest, hlength⟩ := h.exists_regrown hgarbage
  have hslot : slot < b.length := by omega
  have hfree : b.get? slot = none := by rw [hget, h.garbage_free slot (by simp [hgarbage])]
  have hget' : ∀ other,
      (b.fill (b.growth.place slot).1 (b.growth.place slot).2 (make slot)).get? other =
        if other = slot then some (make slot) else a.get? other := by
    intro other
    rw [hlaid.get?_fill hslot, hget]
  refine ⟨_, ?_, h.of_fill_top hgarbage (hlaid.fill hslot hfree) hget' hgrowth ?_ hrest hlength,
    hgrowth, hget'⟩
  · simp only [allocWith, hgarbage]
    rw [hb, locate?, if_pos hslot]
  · exact congrArg (· + 1) hsize

theorem allocWith_of_nil (h : a.Valid) (make : Nat → α) (hgarbage : a.garbage = [])
    (hroom : a.length < maxLength) :
    ∃ a' : Arena α, a.allocWith make = (.ok a.length, a') ∧ a'.Valid ∧ a'.growth = a.growth ∧
      ∀ other, a'.get? other = if other = a.length then some (make a.length) else a.get? other := by
  have hfree : a.get? a.length = none := get?_eq_none_of_length_le le_rfl
  have hlaid' : (a.append (make a.length)).Laid := h.toLaid.append
  have hget' : ∀ other, (a.append (make a.length)).get? other =
      if other = a.length then some (make a.length) else a.get? other :=
    fun other => h.toLaid.get?_append
  have hgarbage' : (a.append (make a.length)).garbage = [] := hgarbage
  have hvalid : (a.append (make a.length)).Valid := by
    constructor
    case toLaid => exact hlaid'
    case size_eq =>
      change a.size + 1 = _
      rw [h.size_eq, (slots_perm_of_fill h.toLaid hlaid' hfree hget').length_eq, List.length_cons]
    case waiting =>
      change ∀ other < a.length + 1, _
      intro other hlt hnone
      rw [hget'] at hnone
      split at hnone
      · cases hnone
      · have hmem := h.waiting other (by omega) hnone
        simp [hgarbage] at hmem
    case length_le => exact hroom
    all_goals simp [hgarbage']
  refine ⟨_, ?_, hvalid, rfl, hget'⟩
  simp only [allocWith, hgarbage]
  rw [if_neg (by omega)]

/-- A slot handed out was not live, and no other slot changes. Only a full arena refuses. -/
theorem allocWith_cases (h : a.Valid) (make : Nat → α) :
    (a.allocWith make = (.error (.arenaFull a.length), a) ∧ a.garbage = [] ∧ a.length = maxLength) ∨
    ∃ (slot : Nat) (a' : Arena α), a.allocWith make = (.ok slot, a') ∧ a.get? slot = none ∧
      a'.Valid ∧ a'.growth = a.growth ∧
      ∀ other, a'.get? other = if other = slot then some (make slot) else a.get? other := by
  cases hgarbage : a.garbage with
  | cons slot garbage =>
    obtain ⟨a', hanswer, hrest⟩ := h.allocWith_of_cons make hgarbage
    exact .inr ⟨slot, a', hanswer, h.garbage_free slot (by simp [hgarbage]), hrest⟩
  | nil =>
    by_cases hroom : a.length < maxLength
    · obtain ⟨a', hanswer, hrest⟩ := h.allocWith_of_nil make hgarbage hroom
      exact .inr ⟨a.length, a', hanswer, get?_eq_none_of_length_le le_rfl, hrest⟩
    · have hle := h.length_le
      refine .inl ⟨?_, rfl, by omega⟩
      simp only [allocWith, hgarbage]
      rw [if_pos (by omega)]

/-! ### Taking a slot back -/

theorem vacate (h : a.Valid) (hlive : a.get? slot = some value) :
    (a.vacate slot (a.growth.place slot).1 (a.growth.place slot).2).Valid := by
  have hslot := lt_length_of_get? hlive
  have hlaid' := h.toLaid.vacate hlive
  have hget' : ∀ other,
      (a.vacate slot (a.growth.place slot).1 (a.growth.place slot).2).get? other =
        if other = slot then none else a.get? other :=
    fun other => Laid.get?_vacate hslot
  have hnot : slot ∉ a.garbage := by
    intro hmem
    rw [h.garbage_free slot hmem] at hlive
    cases hlive
  constructor
  case toLaid => exact hlaid'
  case size_eq =>
    have hback : ∀ other, a.get? other = if other = slot then some value else
        (a.vacate slot (a.growth.place slot).1 (a.growth.place slot).2).get? other := by
      intro other
      rw [hget']
      by_cases heq : other = slot
      · rw [if_pos heq, heq, hlive]
      · rw [if_neg heq, if_neg heq]
    have hperm := slots_perm_of_fill hlaid' h.toLaid (by rw [hget', if_pos rfl]) hback
    change a.size - 1 = _
    rw [h.size_eq, hperm.length_eq]
    rfl
  case garbage_nodup => exact List.nodup_cons.mpr ⟨hnot, h.garbage_nodup⟩
  case garbage_free =>
    intro other hother
    rw [hget']
    split
    · rfl
    · next hne => exact h.garbage_free other ((List.mem_cons.mp hother).resolve_left hne)
  case waiting =>
    change ∀ other < a.length, _ → other ∈ slot :: a.garbage
    intro other hlt hnone
    by_cases heq : other = slot
    · exact heq ▸ List.mem_cons_self
    · rw [hget', if_neg heq] at hnone
      exact List.mem_cons_of_mem _ (h.waiting other hlt hnone)
  case reclaimed =>
    change ∀ other ∈ slot :: a.garbage, ∀ below, a.length ≤ below → _ → below ∈ slot :: a.garbage
    intro other hother below hge hle
    rcases List.mem_cons.mp hother with rfl | hother
    · omega
    · exact List.mem_cons_of_mem _ (h.reclaimed other hother below hge hle)
  case linear_garbage =>
    intro hlinear
    exact List.forall_mem_cons.mpr ⟨hslot, h.linear_garbage hlinear⟩
  case length_le => exact h.length_le
  case garbage_lt =>
    exact List.forall_mem_cons.mpr ⟨Nat.lt_of_lt_of_le hslot h.length_le, h.garbage_lt⟩

/-- Giving a block back takes nothing off the stack and makes the arena no longer. -/
theorem reclaim_fields (h : a.Laid) (block : Nat) :
    (a.reclaim block).garbage = a.garbage ∧ (a.reclaim block).size = a.size ∧
      (a.reclaim block).length ≤ a.length ∧
      (a.growth = .linear → (a.reclaim block).length = a.length) := by
  have hblocks := h.blocks_size
  unfold Arena.reclaim
  split
  · exact ⟨rfl, rfl, le_rfl, fun _ => rfl⟩
  · next size hgrowth =>
    split
    · next hlast =>
      refine ⟨rfl, rfl, ?_, fun hlinear => by rw [hgrowth] at hlinear; cases hlinear⟩
      rw [hgrowth, Growth.blockCount] at hblocks
      calc block * size = (a.length - 1) / size * size := by
            rw [show block = (a.length - 1) / size by omega]
        _ ≤ a.length - 1 := Nat.div_mul_le_self _ _
        _ ≤ a.length := Nat.sub_le _ _
    · exact ⟨rfl, rfl, le_rfl, fun _ => rfl⟩

theorem reclaim (h : a.Valid) (block : Nat) : (a.reclaim block).Valid := by
  have hlaid' := h.toLaid.reclaim block
  have hget' : ∀ other, (a.reclaim block).get? other = a.get? other :=
    fun other => h.toLaid.get?_reclaim block
  obtain ⟨hgarbage, hsize, hlength, hlinear⟩ := reclaim_fields h.toLaid block
  constructor
  case toLaid => exact hlaid'
  case size_eq =>
    have hperm : (a.reclaim block).slots.Perm a.slots :=
      (List.perm_ext_iff_of_nodup hlaid'.nodup_slots h.nodup_slots).mpr fun other => by
        rw [hlaid'.mem_slots, h.mem_slots, hget']
    rw [hsize, h.size_eq, hperm.length_eq]
  case garbage_nodup => exact hgarbage ▸ h.garbage_nodup
  case garbage_free =>
    intro other hother
    rw [hget']
    exact h.garbage_free other (hgarbage ▸ hother)
  case waiting =>
    intro other hlt hnone
    rw [hget'] at hnone
    rw [hgarbage]
    exact h.waiting other (by omega) hnone
  case reclaimed =>
    rw [hgarbage]
    intro other hother below hge hle
    by_cases hold : below < a.length
    · refine h.waiting below hold ?_
      rw [← hget', get?_eq_none_of_length_le hge]
    · exact h.reclaimed other hother below (by omega) hle
  case linear_garbage =>
    rw [hgarbage, growth_reclaim]
    intro hl
    rw [hlinear hl]
    exact h.linear_garbage hl
  case length_le => exact hlength.trans h.length_le
  case garbage_lt => exact hgarbage ▸ h.garbage_lt

theorem free_fst : (a.free slot).1 = a.get? slot := by
  simp only [free, get?]
  by_cases hslot : slot < a.length
  · rw [locate?, if_pos hslot]
    simp only
    split
    · next hnone => exact hnone.symm
    · next hsome => exact hsome.symm
  · rw [locate?, if_neg hslot]

theorem free_of_none (hfree : a.get? slot = none) : (a.free slot).2 = a := by
  simp only [free]
  split
  · rfl
  · next block offset hplace =>
    simp only [get?, hplace] at hfree
    rw [hfree]

theorem free_of_some (h : a.Valid) (hlive : a.get? slot = some value) :
    (a.free slot).2 = (a.vacate slot (a.growth.place slot).1 (a.growth.place slot).2).reclaim
      (a.growth.place slot).1 := by
  have hslot := lt_length_of_get? hlive
  rw [h.toLaid.get?_eq] at hlive
  simp only [free]
  rw [locate?, if_pos hslot]
  simp only
  rw [hlive]

theorem free (h : a.Valid) (slot : Nat) : (a.free slot).2.Valid := by
  cases hlive : a.get? slot with
  | none => rwa [free_of_none hlive]
  | some value =>
    rw [h.free_of_some hlive]
    exact (h.vacate hlive).reclaim _

theorem get?_free (h : a.Valid) :
    (a.free slot).2.get? other = if other = slot then none else a.get? other := by
  cases hlive : a.get? slot with
  | none =>
    rw [free_of_none hlive]
    split
    · next heq => rw [heq, hlive]
    · rfl
  | some value =>
    rw [h.free_of_some hlive, (h.vacate hlive).toLaid.get?_reclaim,
      Laid.get?_vacate (lt_length_of_get? hlive)]

end Valid

end PropertyGraph.Arena

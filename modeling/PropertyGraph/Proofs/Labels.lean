import PropertyGraph.LabelRegistry
import PropertyGraph.Proofs.Arena.Calls

/-!
# The label registry

The way from ids to labels and the way back undo each other, so a label has one id and an id one
label. Registering a label moves no other, and takes an id that was free if it takes a new one.
-/

namespace PropertyGraph

theorem ok_bind {ε α β : Type} (x : α) (f : α → Except ε β) : (Except.ok x >>= f) = f x := rfl

namespace LabelRegistry

variable {r r' : LabelRegistry} {label other : String} {id i : Nat}

theorem labelOf_eq (hid : r.labels.get? id = some label) : r.labelOf id = .ok label := by
  have hrange : r.labels.checkRange id = .ok id := by
    rw [Arena.checkRange, Int.mem_toNat?.mpr rfl]
    exact if_pos (Arena.lt_length_of_get? hid)
  rw [labelOf, hrange, ok_bind, hid]
  rfl

theorem add_of_idOf? (hid : r.idOf? label = some id) : r.add label = (.ok id, r) := by
  rw [idOf?] at hid
  simp only [add, hid]

/-- The ids lead to the labels and back. -/
structure Sound (r : LabelRegistry) : Prop where
  valid : r.labels.Valid
  ids_iff : ∀ label id, r.idOf? label = some id ↔ r.labels.get? id = some label

theorem sound_empty : Sound {} where
  valid := Arena.valid_linear
  ids_iff := by
    intro label id
    rw [show ({} : LabelRegistry).labels = { growth := .linear } from rfl, Arena.get?_empty]
    simp [idOf?]

namespace Sound

theorem add_cases (h : r.Sound) (label : String) :
    (∃ fault, r.add label = (.error fault, r)) ∨
    (∃ id, r.add label = (.ok id, r) ∧ r.labels.get? id = some label) ∨
    ∃ id r', r.add label = (.ok id, r') ∧ r'.Sound ∧ r.idOf? label = none ∧
      r.labels.get? id = none ∧
      ∀ i, r'.labels.get? i = if i = id then some label else r.labels.get? i := by
  cases hid : r.ids[label]? with
  | some id =>
    refine .inr (.inl ⟨id, ?_, (h.ids_iff label id).mp hid⟩)
    simp only [add, hid]
  | none =>
    by_cases hfull : maxLabels ≤ r.labels.size
    · refine .inl ⟨.labelsFull, ?_⟩
      simp only [add, hid, if_pos hfull]
    · rcases h.valid.allocWith_cases fun _ => label with
        ⟨hrefused, _⟩ | ⟨id, labels, hdone, hfree, hvalid, _, hget⟩
      · refine .inl ⟨.arenaFull r.labels.length, ?_⟩
        simp only [add, hid, if_neg hfull, Arena.alloc, hrefused]
      · refine .inr (.inr ⟨id, { labels, ids := r.ids.insert label id }, ?_, ⟨hvalid, ?_⟩, hid, hfree,
          hget⟩)
        · simp only [add, hid, if_neg hfull, Arena.alloc, hdone]
        · intro other i
          change (r.ids.insert label id)[other]? = some i ↔ labels.get? i = some other
          rw [Std.HashMap.getElem?_insert, hget]
          by_cases hother : label = other
          · subst hother
            rw [beq_self_eq_true, if_pos rfl]
            by_cases hi : i = id
            · simp [hi]
            · rw [if_neg hi, ← h.ids_iff, idOf?, hid]
              simp [Ne.symm hi]
          · rw [beq_false_of_ne hother, if_neg Bool.false_ne_true]
            by_cases hi : i = id
            · subst hi
              rw [if_pos rfl]
              change r.idOf? other = _ ↔ _
              rw [h.ids_iff, hfree]
              simp [hother]
            · rw [if_neg hi]
              exact h.ids_iff other i

/-- A label has an id after the call exactly if it had one or the registry was not full. The arena has
room for more slots than the registry for labels. -/
theorem exists_add_iff (h : r.Sound) (label : String) :
    (∃ id, (r.add label).1 = .ok id) ↔ r.contains label = true ∨ r.size < maxLabels := by
  rw [contains, Std.HashMap.contains_eq_isSome_getElem?]
  cases hid : r.ids[label]? with
  | some id => simp [add, hid]
  | none =>
    constructor
    · rintro ⟨id, hadd⟩
      refine .inr (Nat.lt_of_not_le fun hfull => ?_)
      change maxLabels ≤ r.labels.size at hfull
      simp only [add, hid, if_pos hfull] at hadd
      cases hadd
    · rintro (hsome | hlt)
      · cases hsome
      · have hroom : r.labels.HasRoom := by
          refine or_iff_not_imp_left.mpr fun hempty => ?_
          calc r.labels.length
              = r.labels.size := (h.valid.size_eq_length (not_not.mp hempty)).symm
            _ < maxLabels := hlt
            _ < Arena.maxLength := by decide
        obtain ⟨id, hid'⟩ := (h.valid.exists_alloc_iff label).mpr hroom
        refine ⟨id, ?_⟩
        have hfull : ¬ maxLabels ≤ r.labels.size := Nat.not_le_of_lt hlt
        simp only [add, hid, if_neg hfull]
        rcases halloc : r.labels.alloc label with ⟨answer, labels⟩
        rw [halloc] at hid'
        simp only at hid'
        rw [hid']

theorem erase (h : r.Sound) (hid : r.labels.get? id = some label) :
    ({ labels := (r.labels.free id).2, ids := r.ids.erase label } : LabelRegistry).Sound where
  valid := h.valid.free id
  ids_iff := by
    intro other i
    change (r.ids.erase label)[other]? = some i ↔ (r.labels.free id).2.get? i = some other
    rw [Std.HashMap.getElem?_erase, h.valid.get?_free]
    by_cases hother : label = other
    · subst hother
      rw [beq_self_eq_true, if_pos rfl]
      by_cases hi : i = id
      · simp [hi]
      · rw [if_neg hi, ← h.ids_iff, (h.ids_iff label id).mpr hid]
        simp [Ne.symm hi]
    · rw [beq_false_of_ne hother, if_neg Bool.false_ne_true]
      change r.idOf? other = some i ↔ _
      rw [h.ids_iff]
      by_cases hi : i = id
      · simp [hi, hid, hother]
      · rw [if_neg hi]

theorem remove (h : r.Sound) (label : String) :
    (r.remove label).2.Sound ∧ ∀ i, r.idOf? label ≠ some i →
      (r.remove label).2.labels.get? i = r.labels.get? i := by
  rw [LabelRegistry.remove]
  cases hid : r.ids[label]? with
  | none => exact ⟨h, fun _ _ => rfl⟩
  | some id =>
    refine ⟨h.erase ((h.ids_iff label id).mp hid), fun i hi => ?_⟩
    change (r.labels.free id).2.get? i = _
    rw [h.valid.get?_free, if_neg]
    rintro rfl
    exact hi hid

theorem removeId (h : r.Sound) (id : Int) :
    (r.removeId id).2.Sound ∧ ∀ i : Nat, id ≠ i →
      (r.removeId id).2.labels.get? i = r.labels.get? i := by
  rw [LabelRegistry.removeId, Arena.release]
  cases hslot : id.toNat? with
  | none => exact ⟨h, fun _ _ => rfl⟩
  | some slot =>
    have hfst : (r.labels.free slot).1 = r.labels.get? slot := Arena.Valid.free_fst
    cases hfree : r.labels.free slot with
    | mk gone labels =>
      simp only [hfree]
      rw [hfree] at hfst
      cases gone with
      | none => exact ⟨h, fun _ _ => rfl⟩
      | some label =>
        have hsound := h.erase hfst.symm
        refine ⟨by rwa [hfree] at hsound, fun i hi => ?_⟩
        change labels.get? i = _
        rw [show labels = (r.labels.free slot).2 by rw [hfree], h.valid.get?_free, if_neg]
        rintro rfl
        exact hi (Int.mem_toNat?.mp hslot)

end Sound

end LabelRegistry

end PropertyGraph

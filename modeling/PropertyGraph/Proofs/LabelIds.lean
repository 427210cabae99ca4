import PropertyGraph.Proofs.Labels

/-!
# The ids of labels

Labels come and go in any order, and their ids with them. An id is begun only while every id before it
belongs to a label, so no more ids are ever begun than labels are registered at once. Ids therefore
stay below a bound however many labels there have been, and the registry refuses a label only if it is
full of others.
-/

namespace PropertyGraph

namespace LabelRegistry

variable {r : LabelRegistry} {label : String} {handedOut : List Nat}

/-! ### Calls -/

inductive Call where
  | add (label : String)
  | remove (label : String)
  | removeId (id : Int)
  | clear

def perform (r : LabelRegistry) : Call → LabelRegistry
  | .add label => (r.add label).2
  | .remove label => (r.remove label).2
  | .removeId id => (r.removeId id).2
  | .clear => r.clear

def handsOut? (r : LabelRegistry) : Call → Option Nat
  | .add label => (r.add label).1.toOption
  | _ => none

def run (r : LabelRegistry) (handedOut : List Nat) : List Call → LabelRegistry × List Nat
  | [] => (r, handedOut)
  | call :: rest => (r.perform call).run ((r.handsOut? call).toList ++ handedOut) rest

/-! ### The ids stay dense -/

theorem labels_add_cases (r : LabelRegistry) (label : String) :
    (r.add label).2.labels = r.labels ∨
    r.labels.size < maxLabels ∧ (r.add label).2.labels = (r.labels.alloc label).2 := by
  cases hid : r.ids[label]? with
  | some id =>
    refine .inl ?_
    simp only [add, hid]
  | none =>
    by_cases hfull : maxLabels ≤ r.labels.size
    · refine .inl ?_
      simp only [add, hid, if_pos hfull]
    · refine .inr ⟨Nat.lt_of_not_le hfull, ?_⟩
      simp only [add, hid, if_neg hfull]
      split <;> next halloc => rw [halloc]

theorem labels_remove_cases (r : LabelRegistry) (label : String) :
    (r.remove label).2.labels = r.labels ∨
    ∃ id, (r.remove label).2.labels = (r.labels.free id).2 := by
  cases hid : r.ids[label]? with
  | none => exact .inl (by simp only [remove, hid])
  | some id => exact .inr ⟨id, by simp only [remove, hid]⟩

theorem labels_removeId_cases (r : LabelRegistry) (id : Int) :
    (r.removeId id).2.labels = r.labels ∨
    ∃ slot, (r.removeId id).2.labels = (r.labels.free slot).2 := by
  cases hslot : id.toNat? with
  | none => exact .inl (by simp only [removeId, Arena.release, hslot])
  | some slot =>
    cases hfree : r.labels.free slot with
    | mk gone labels =>
      cases gone with
      | none => exact .inl (by simp only [removeId, Arena.release, hslot, hfree])
      | some label => exact .inr ⟨slot, by simp only [removeId, Arena.release, hslot, hfree]⟩

/-- The arena of the labels is one block, no longer than the labels that may be registered at once. -/
structure Dense (r : LabelRegistry) : Prop extends r.Sound where
  linear : r.labels.growth = .linear
  length_le : r.labels.length ≤ maxLabels

theorem dense_empty : Dense {} where
  toSound := sound_empty
  linear := rfl
  length_le := Nat.zero_le _

namespace Dense

theorem size_le (h : r.Dense) : r.size ≤ maxLabels :=
  h.valid.size_le_length.trans h.length_le

theorem lt_maxLabels (h : r.Dense) {id : Nat} (hid : r.labels.get? id = some label) :
    id < maxLabels :=
  Nat.lt_of_lt_of_le (Arena.lt_length_of_get? hid) h.length_le

theorem of_free {r' : LabelRegistry} (h : r.Dense) (hsound : r'.Sound)
    (hlabels : r'.labels = r.labels ∨ ∃ slot, r'.labels = (r.labels.free slot).2) : r'.Dense := by
  rcases hlabels with hlabels | ⟨slot, hlabels⟩
  · exact ⟨hsound, hlabels ▸ h.linear, hlabels ▸ h.length_le⟩
  · refine ⟨hsound, ?_, ?_⟩
    · rw [hlabels, Arena.growth_free]
      exact h.linear
    · rw [hlabels, Arena.length_free_of_linear h.linear]
      exact h.length_le

theorem add (h : r.Dense) (label : String) : (r.add label).2.Dense := by
  have hsound : (r.add label).2.Sound := by
    rcases h.toSound.add_cases label with ⟨_, hadd⟩ | ⟨_, hadd, _⟩ | ⟨_, _, hadd, hsound, _⟩
    · rw [hadd]
      exact h.toSound
    · rw [hadd]
      exact h.toSound
    · rwa [hadd]
  rcases labels_add_cases r label with hlabels | ⟨hroom, hlabels⟩
  · exact ⟨hsound, hlabels ▸ h.linear, hlabels ▸ h.length_le⟩
  · refine ⟨hsound, ?_, ?_⟩
    · rw [hlabels, h.valid.growth_alloc]
      exact h.linear
    · have hlength := h.valid.length_alloc_le_of_linear h.linear label
      have hle := h.length_le
      rw [hlabels]
      omega

theorem clear_eq (h : r.Dense) : r.clear = {} := by
  rw [clear, Arena.clear, h.linear]
  rfl

theorem perform (h : r.Dense) (call : Call) : (r.perform call).Dense := by
  cases call with
  | add label => exact h.add label
  | remove label => exact h.of_free (h.toSound.remove label).1 (labels_remove_cases r label)
  | removeId id => exact h.of_free (h.toSound.removeId id).1 (labels_removeId_cases r id)
  | clear =>
    change r.clear.Dense
    rw [h.clear_eq]
    exact dense_empty

theorem handsOut?_lt (h : r.Dense) (call : Call) {id : Nat} (hid : r.handsOut? call = some id) :
    id < maxLabels := by
  cases call with
  | add label =>
    change (r.add label).1.toOption = some id at hid
    have hdense := h.add label
    rcases h.toSound.add_cases label with ⟨_, hadd⟩ | ⟨_, hadd, hget⟩ | ⟨_, _, hadd, _, _, _, hget⟩
    · rw [hadd] at hid
      cases hid
    · rw [hadd] at hid
      cases hid
      exact h.lt_maxLabels hget
    · rw [hadd] at hid hdense
      cases hid
      exact hdense.lt_maxLabels ((hget id).trans (if_pos rfl))
  | remove | removeId | clear => cases hid

theorem run (h : r.Dense) (hhanded : ∀ id ∈ handedOut, id < maxLabels) (calls : List Call) :
    (r.run handedOut calls).1.Dense ∧ ∀ id ∈ (r.run handedOut calls).2, id < maxLabels := by
  induction calls generalizing r handedOut with
  | nil => exact ⟨h, hhanded⟩
  | cons call rest ih =>
    refine ih (h.perform call) fun id hid => ?_
    rcases List.mem_append.mp hid with hnew | hold
    · exact h.handsOut?_lt call (Option.mem_toList.mp hnew)
    · exact hhanded id hold

end Dense

/-! ### Labels and ids -/

/-- Labels and ids are matched one to one, and a label is refused exactly if it is new and there are as
many others as there may be. -/
structure Matched (r : LabelRegistry) : Prop where
  idOf?_iff : ∀ (label : String) (id : Int),
    (∃ slot : Nat, id = slot ∧ r.idOf? label = some slot) ↔ r.labelOf id = .ok label
  mem_toList_iff : ∀ id label, (id, label) ∈ r.toList ↔ r.idOf? label = some id
  increasing : r.toList.Pairwise (·.1 < ·.1)
  size_eq : r.size = r.toList.length
  size_le : r.size ≤ maxLabels
  refused_iff : ∀ label, (∃ fault, (r.add label).1 = .error fault) ↔
    r.idOf? label = none ∧ r.size = maxLabels
  add_of_refused : ∀ label fault, (r.add label).1 = .error fault →
    r.add label = (.error .labelsFull, r)
  add_of_registered : ∀ label id, r.idOf? label = some id → r.add label = (.ok id, r)
  /-- A call that is granted registers the label under the id that it hands out, and no other. -/
  add_of_granted : ∀ label id, (r.add label).1 = .ok id → ∀ other i,
    (r.add label).2.idOf? other = some i ↔ (other = label ∧ i = id) ∨ r.idOf? other = some i

theorem labelOf_eq_ok_iff {id : Int} :
    r.labelOf id = .ok label ↔ ∃ slot : Nat, id = slot ∧ r.labels.get? slot = some label := by
  constructor
  · intro hlabel
    rw [labelOf, Arena.checkRange] at hlabel
    cases hslot : id.toNat? with
    | none =>
      rw [hslot] at hlabel
      cases hlabel
    | some slot =>
      refine ⟨slot, Int.mem_toNat?.mp hslot, ?_⟩
      simp only [hslot] at hlabel
      split at hlabel
      · rw [ok_bind] at hlabel
        split at hlabel
        · next hget =>
          cases hlabel
          exact hget
        · cases hlabel
      · cases hlabel
  · rintro ⟨slot, rfl, hget⟩
    exact labelOf_eq hget

theorem add_of_full (hid : r.idOf? label = none) (hfull : maxLabels ≤ r.size) :
    r.add label = (.error .labelsFull, r) := by
  rw [idOf?] at hid
  rw [size] at hfull
  simp only [add, hid, if_pos hfull]

theorem Dense.full_of_refused (h : r.Dense) {fault : Fault} (hfault : (r.add label).1 = .error fault) :
    r.idOf? label = none ∧ r.size = maxLabels := by
  have hnot : ¬ (r.contains label = true ∨ r.size < maxLabels) := by
    rw [← h.exists_add_iff]
    rintro ⟨id, hid⟩
    rw [hid] at hfault
    cases hfault
  rw [not_or, contains, Std.HashMap.contains_eq_isSome_getElem?, Option.not_isSome_iff_eq_none] at hnot
  exact ⟨hnot.1, Nat.le_antisymm h.size_le (Nat.le_of_not_lt hnot.2)⟩

theorem Sound.add_of_granted (h : r.Sound) {id : Nat} (hdone : (r.add label).1 = .ok id)
    (other : String) (i : Nat) : (r.add label).2.idOf? other = some i ↔
      (other = label ∧ i = id) ∨ r.idOf? other = some i := by
  rcases h.add_cases label with
    ⟨fault, hadd⟩ | ⟨id', hadd, hget⟩ | ⟨id', r', hadd, hsound, _, hfree, hget⟩
  · rw [hadd] at hdone
    cases hdone
  · rw [hadd, Except.ok.injEq] at hdone
    rw [hadd, iff_or_self]
    rintro ⟨rfl, rfl⟩
    rw [← hdone]
    exact (h.ids_iff other id').mpr hget
  · rw [hadd, Except.ok.injEq] at hdone
    subst hdone
    rw [hadd, hsound.ids_iff, h.ids_iff, hget]
    by_cases hi : i = id'
    · rw [if_pos hi, hi, hfree, Option.some.injEq]
      simp [eq_comm]
    · simp [hi]

theorem Dense.matched (h : r.Dense) : r.Matched where
  idOf?_iff := by
    intro label id
    rw [labelOf_eq_ok_iff]
    exact exists_congr fun slot => and_congr_right fun _ => h.ids_iff label slot
  mem_toList_iff := by
    intro id label
    rw [h.ids_iff]
    exact h.valid.mem_toList
  increasing := h.valid.pairwise_lt_toList
  size_eq := by
    rw [size, h.valid.size_eq, Arena.slots, List.length_map]
    rfl
  size_le := h.size_le
  refused_iff := by
    intro label
    constructor
    · rintro ⟨fault, hfault⟩
      exact h.full_of_refused hfault
    · rintro ⟨hid, hfull⟩
      exact ⟨.labelsFull, congrArg Prod.fst (add_of_full hid hfull.ge)⟩
  add_of_refused := by
    intro label fault hfault
    obtain ⟨hid, hfull⟩ := h.full_of_refused hfault
    exact add_of_full hid hfull.ge
  add_of_registered := fun _ _ hid => add_of_idOf? hid
  add_of_granted := fun _ _ hdone => h.toSound.add_of_granted hdone

/-- Whatever labels come and go, labels and ids are matched, and every id there ever was is below the
most labels there may be. -/
theorem matched_run (calls : List Call) :
    Matched (run {} [] calls).1 ∧ ∀ id ∈ (run {} [] calls).2, id < maxLabels :=
  have hrun := dense_empty.run (by simp) calls
  ⟨hrun.1.matched, hrun.2⟩

end LabelRegistry

end PropertyGraph

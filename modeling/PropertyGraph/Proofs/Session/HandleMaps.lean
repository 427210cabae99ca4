import Mathlib.Logic.Function.Basic
import Mathlib.Tactic
import PropertyGraph.Session

/-!
# Handle maps

Nodes and edges are kept in the same way: slots hold them, an index leads from their ids to their
slots, and the catalog knows their homes. A handle map is what there is of this for one sort of elements
and one store. An element is entered, taken out, or all of them are. A handle map that was coherent
stays so, and the homes in other stores are left alone.
-/

namespace PropertyGraph

/-- What the slots hold, the slot of every id, and the homes of the elements of one sort. -/
@[ext]
structure HandleMap (α : Type) where
  held : Nat → Option α
  slotOf : ElementId → Option Nat
  home : α → Option Home

namespace HandleMap

variable {α : Type} {t t' t'' : HandleMap α} {id : α → ElementId} {token slot : Nat} {x : α}

/-- Homes in the store are where the elements are, and the index leads to every id in use. -/
structure Coherent (id : α → ElementId) (token : Nat) (t : HandleMap α) : Prop where
  home_iff : ∀ x slot, t.home x = some ⟨token, slot⟩ ↔ t.held slot = some x
  slotOf_iff : ∀ key slot, t.slotOf key = some slot ↔ ∃ x, t.held slot = some x ∧ id x = key

/-- No element is in two slots, and the index leads to every id in use. This does not depend on
homes. -/
structure Listed (id : α → ElementId) (t : HandleMap α) : Prop where
  slot_unique : ∀ x i j, t.held i = some x → t.held j = some x → i = j
  slotOf_iff : ∀ key slot, t.slotOf key = some slot ↔ ∃ x, t.held slot = some x ∧ id x = key

/-- Coherence is kept, and so are the homes elsewhere. -/
structure Keeps (id : α → ElementId) (token : Nat) (t t' : HandleMap α) : Prop where
  listed : t.Listed id → t'.Listed id
  coherent : t.Coherent id token → t'.Coherent id token
  elsewhere : t.Coherent id token → ∀ x home, home.store ≠ token →
    (t'.home x = some home ↔ t.home x = some home)

namespace Keeps

theorem refl (t : HandleMap α) : Keeps id token t t := ⟨fun h => h, fun h => h, fun _ _ _ _ => Iff.rfl⟩

theorem trans (h : Keeps id token t t') (h' : Keeps id token t' t'') : Keeps id token t t'' where
  listed := fun ht => h'.listed (h.listed ht)
  coherent := fun ht => h'.coherent (h.coherent ht)
  elsewhere := fun ht x home hne =>
    (h'.elsewhere (h.coherent ht) x home hne).trans (h.elsewhere ht x home hne)

end Keeps

theorem Listed.id_unique (h : t.Listed id) {i j : Nat} {y : α} (hx : t.held i = some x)
    (hy : t.held j = some y) (hid : id x = id y) : x = y := by
  have hslot := (h.slotOf_iff (id x) i).mpr ⟨x, hx, rfl⟩
  rw [(h.slotOf_iff (id x) j).mpr ⟨y, hy, hid.symm⟩, Option.some.injEq] at hslot
  rw [hslot, hx, Option.some.injEq] at hy
  exact hy

theorem Listed.of_empty (hheld : ∀ slot, t.held slot = none) (hslotOf : ∀ key, t.slotOf key = none) :
    t.Listed id where
  slot_unique := fun x i j hi => by simp [hheld] at hi
  slotOf_iff := fun key slot => by simp [hheld, hslotOf]

namespace Coherent

theorem slot_unique (h : t.Coherent id token) {i j : Nat} (hi : t.held i = some x)
    (hj : t.held j = some x) : i = j := by
  have hhome := (h.home_iff x i).mpr hi
  rw [(h.home_iff x j).mpr hj] at hhome
  cases hhome
  rfl

theorem listed (h : t.Coherent id token) : t.Listed id :=
  ⟨fun _ _ _ => h.slot_unique, h.slotOf_iff⟩

theorem id_unique (h : t.Coherent id token) {i j : Nat} {y : α} (hx : t.held i = some x)
    (hy : t.held j = some y) (hid : id x = id y) : x = y := h.listed.id_unique hx hy hid

theorem home_eq_none (h : t.Coherent id token)
    (hunheld : ∀ home, t.home x = some home → home.store = token ∧ t.held home.slot ≠ some x) :
    t.home x = none := by
  cases hhome : t.home x with
  | none => rfl
  | some home =>
    obtain ⟨hstore, hnot⟩ := hunheld home hhome
    have hheld : t.home x = some ⟨token, home.slot⟩ := by rw [hhome, ← hstore]
    exact absurd ((h.home_iff x home.slot).mp hheld) hnot

theorem of_empty (hheld : ∀ slot, t.held slot = none) (hslotOf : ∀ key, t.slotOf key = none)
    (hhome : ∀ x slot, t.home x ≠ some ⟨token, slot⟩) : t.Coherent id token where
  home_iff := fun x slot => by simp [hheld, hhome]
  slotOf_iff := (Listed.of_empty hheld hslotOf).slotOf_iff

theorem rehome {home : α → Option Home} (h : t.Coherent id token)
    (hhome : ∀ x slot, home x = some ⟨token, slot⟩ ↔ t.home x = some ⟨token, slot⟩) :
    Coherent id token { t with home } where
  home_iff := fun x slot => (hhome x slot).trans (h.home_iff x slot)
  slotOf_iff := h.slotOf_iff

end Coherent

/-! ### Entering an element -/

variable [DecidableEq α]

def put (id : α → ElementId) (token slot : Nat) (x : α) (t : HandleMap α) : HandleMap α where
  held := Function.update t.held slot (some x)
  slotOf := Function.update t.slotOf (id x) (some slot)
  home := Function.update t.home x (some ⟨token, slot⟩)

theorem Listed.put (h : t.Listed id) (hfree : t.held slot = none) (hid : t.slotOf (id x) = none) :
    (t.put id token slot x).Listed id where
  slot_unique := by
    intro y i j hi hj
    simp only [HandleMap.put, Function.update_apply] at hi hj
    -- the id of what is held already is not the one that is free
    have hnew : ∀ i, t.held i ≠ some x := by
      intro i hx
      rw [(h.slotOf_iff (id x) i).mpr ⟨x, hx, rfl⟩] at hid
      cases hid
    split at hi <;> split at hj
    · next hi' hj' => rw [hi', hj']
    · cases hi
      exact absurd hj (hnew j)
    · cases hj
      exact absurd hi (hnew i)
    · exact h.slot_unique y i j hi hj
  slotOf_iff := by
    intro key i
    simp only [HandleMap.put, Function.update_apply]
    by_cases hi : i = slot
    · subst hi
      have hnot : ∀ key, t.slotOf key ≠ some i := by
        intro key hkey
        obtain ⟨y, hy, _⟩ := (h.slotOf_iff key i).mp hkey
        rw [hy] at hfree
        cases hfree
      by_cases hkey : key = id x
      · simp [hkey]
      · simp [hkey, hnot, Ne.symm hkey]
    · simp only [if_neg hi]
      by_cases hkey : key = id x
      · subst hkey
        have hnone : ¬∃ y, t.held i = some y ∧ id y = id x := by
          intro hex
          rw [(h.slotOf_iff _ i).mpr hex] at hid
          cases hid
        simp [hnone, Ne.symm hi]
      · rw [if_neg hkey]
        exact h.slotOf_iff key i

theorem Coherent.put (h : t.Coherent id token) (hfree : t.held slot = none)
    (hhome : t.home x = none) (hid : t.slotOf (id x) = none) :
    (t.put id token slot x).Coherent id token where
  home_iff := by
    intro y i
    simp only [HandleMap.put, Function.update_apply]
    by_cases hy : y = x
    · subst hy
      have hnot : t.held i ≠ some y := by
        intro hi
        rw [(h.home_iff y i).mpr hi] at hhome
        cases hhome
      by_cases hi : i = slot
      · simp [hi]
      · simp [hi, hnot, Ne.symm hi]
    · rw [if_neg hy]
      by_cases hi : i = slot
      · subst hi
        have hnot : t.home y ≠ some ⟨token, i⟩ := by
          intro hy
          rw [(h.home_iff y i).mp hy] at hfree
          cases hfree
        simp [hnot, Ne.symm hy]
      · rw [if_neg hi]
        exact h.home_iff y i
  slotOf_iff := (h.listed.put hfree hid).slotOf_iff

theorem keeps_put (hfree : t.held slot = none) (hid : t.slotOf (id x) = none)
    (hunheld : ∀ home, t.home x = some home → home.store = token ∧ t.held home.slot ≠ some x) :
    Keeps id token t (t.put id token slot x) where
  listed := fun h => h.put hfree hid
  coherent := fun h => h.put hfree (h.home_eq_none hunheld) hid
  elsewhere := by
    -- only the home of the element changes, and it had none
    intro h y home hne
    simp only [put, Function.update_apply]
    by_cases hy : y = x
    · subst hy
      rw [if_pos rfl, h.home_eq_none hunheld]
      constructor
      · intro heq
        cases heq
        exact absurd rfl hne
      · intro heq
        cases heq
    · rw [if_neg hy]

/-! ### Taking an element out -/

def drop (id : α → ElementId) (slot : Nat) (x : α) (t : HandleMap α) : HandleMap α where
  held := Function.update t.held slot none
  slotOf := Function.update t.slotOf (id x) none
  home := Function.update t.home x none

theorem Listed.drop (h : t.Listed id) (hheld : t.held slot = some x) :
    (t.drop id slot x).Listed id where
  slot_unique := by
    intro y i j hi hj
    simp only [HandleMap.drop, Function.update_apply] at hi hj
    split at hi
    · cases hi
    · split at hj
      · cases hj
      · exact h.slot_unique y i j hi hj
  slotOf_iff := by
    intro key i
    simp only [HandleMap.drop, Function.update_apply]
    by_cases hi : i = slot
    · subst hi
      by_cases hkey : key = id x
      · simp [hkey]
      · have hnot : t.slotOf key ≠ some i := by
          intro hslot
          obtain ⟨y, hy, hid⟩ := (h.slotOf_iff key i).mp hslot
          rw [hheld, Option.some.injEq] at hy
          exact hkey (by rw [← hid, hy])
        simp [hkey, hnot]
    · rw [if_neg hi]
      by_cases hkey : key = id x
      · subst hkey
        have hnone : ¬∃ y, t.held i = some y ∧ id y = id x := by
          rintro ⟨y, hy, hid⟩
          have hsame := h.id_unique hy hheld hid
          subst hsame
          exact hi (h.slot_unique _ _ _ hy hheld)
        simp [hnone]
      · rw [if_neg hkey]
        exact h.slotOf_iff key i

theorem Coherent.drop (h : t.Coherent id token) (hheld : t.held slot = some x) :
    (t.drop id slot x).Coherent id token where
  home_iff := by
    intro y i
    simp only [HandleMap.drop, Function.update_apply]
    by_cases hi : i = slot
    · subst hi
      by_cases hy : y = x
      · simp [hy]
      · have hnot : t.home y ≠ some ⟨token, i⟩ := by
          intro hhome
          rw [(h.home_iff y i).mp hhome, Option.some.injEq] at hheld
          exact hy hheld
        simp [hy, hnot]
    · rw [if_neg hi]
      by_cases hy : y = x
      · subst hy
        have hnot : t.held i ≠ some y := fun hother => hi (h.slot_unique hother hheld)
        simp [hnot]
      · rw [if_neg hy]
        exact h.home_iff y i
  slotOf_iff := (h.listed.drop hheld).slotOf_iff

theorem keeps_drop (hheld : t.held slot = some x) : Keeps id token t (t.drop id slot x) where
  listed := fun h => h.drop hheld
  coherent := fun h => h.drop hheld
  elsewhere := by
    -- the home that the element loses was in this store
    intro h y home hne
    simp only [drop, Function.update_apply]
    by_cases hy : y = x
    · subst hy
      rw [if_pos rfl, (h.home_iff y slot).mpr hheld]
      constructor
      · intro heq
        cases heq
      · intro heq
        cases heq
        exact absurd rfl hne
    · rw [if_neg hy]

/-! ### Taking out all elements -/

def clear (elements : List α) (t : HandleMap α) : HandleMap α where
  held := fun _ => none
  slotOf := fun _ => none
  home := fun x => if x ∈ elements then none else t.home x

theorem keeps_clear {elements : List α}
    (hall : ∀ x, x ∈ elements ↔ ∃ slot, t.held slot = some x) :
    Keeps id token t (t.clear elements) where
  listed := fun _ => .of_empty (fun _ => rfl) fun _ => rfl
  coherent := by
    intro h
    refine .of_empty (fun _ => rfl) (fun _ => rfl) fun x slot hhome => ?_
    simp only [clear] at hhome
    split at hhome
    · cases hhome
    · next hx => exact hx ((hall x).mpr ⟨slot, (h.home_iff x slot).mp hhome⟩)
  elsewhere := by
    intro h x home hne
    simp only [clear]
    by_cases hx : x ∈ elements
    · obtain ⟨slot, hslot⟩ := (hall x).mp hx
      rw [if_pos hx, (h.home_iff x slot).mpr hslot]
      constructor
      · intro heq
        cases heq
      · intro heq
        cases heq
        exact absurd rfl hne
    · rw [if_neg hx]

end HandleMap

end PropertyGraph

import PropertyGraph.Proofs.Counters
import PropertyGraph.Proofs.Session.LabelsStay

/-!
# Labels in use stay registered

An edge is stored with the id of its label, and ids are given out again. That an id never means two
labels rests on two things: a label is taken out only while its count is zero, which is exact, and an
id without a label has nothing left at it. So a label that comes finds neither chains nor a count of
the one that had the id before.
-/

namespace PropertyGraph

/-- No chain begins at the id of a label, and no edge is counted for it. -/
structure Store.Vacant (s : Store) (label : Nat) : Prop where
  head?_eq_none : ∀ n N p, s.nodes.get? n = some N → N.head? p label = none
  labelCount_eq_zero : s.edges.labelCount label = 0

namespace LabelRegistry

variable {r r' : LabelRegistry} {label : String} {id : Nat}

def erase (r : LabelRegistry) (label : String) (id : Nat) : LabelRegistry :=
  { labels := (r.labels.free id).2, ids := r.ids.erase label }

theorem idOf?_erase_self : (r.erase label id).idOf? label = none :=
  Std.HashMap.getElem?_erase_self

theorem remove_of_idOf? (hid : r.idOf? label = some id) :
    r.remove label = (some id, r.erase label id) := by
  rw [idOf?] at hid
  rw [remove, hid]
  rfl

theorem removeId_of_get? (hlabel : r.labels.get? id = some label) :
    r.removeId id = (some label, r.erase label id) := by
  have hfree : r.labels.free id = (some label, (r.labels.free id).2) :=
    Prod.ext (Arena.Valid.free_fst.trans hlabel) rfl
  rw [removeId, Arena.release, Int.mem_toNat?.mpr rfl]
  simp only
  rw [hfree]
  rfl

theorem StaysIn.get?_eq_none (h : r.StaysIn r') (hr : r.Sound) (hr' : r'.Sound)
    (hnew : r.idOf? label = none) (hid : r'.idOf? label = some id) : r.labels.get? id = none := by
  cases hget : r.labels.get? id with
  | none => rfl
  | some other =>
    have hsame := (hr'.ids_iff label id).mp hid
    rw [h id other hget, Option.some.injEq] at hsame
    subst hsame
    rw [(hr.ids_iff other id).mpr hget] at hnew
    cases hnew

end LabelRegistry

theorem Store.Sound.vacant {s : Store} {order : List Nat} {id : Nat} (h : s.Sound order)
    (hfree : s.labels.labels.get? id = none) : s.Vacant id := by
  have hnone : ∀ i e, s.plain? i = some e → e.label ≠ id := by
    rintro i e he rfl
    rw [h.label_of i e he] at hfree
    cases hfree
  refine ⟨fun n N p hN => ?_, ?_⟩
  · have hlinked := h.chained p n N id hN
    have hempty : order.filter (s.onChain p n id) = [] := by
      refine List.filter_eq_nil_iff.mpr fun i _ => ?_
      rw [Store.onChain_iff]
      rintro ⟨e, he, _, hlabel⟩
      exact hnone i _ (plain?_eq_some he) hlabel
    rw [hempty] at hlinked
    exact hlinked
  · rw [h.indexed.labelCount]
    exact tally_eq_zero fun i e he => beq_false_of_ne (hnone i e he)

namespace Session

open PropertyGraph.Action

variable {s : Session} {edges : List Edge} {order : List Nat} {label : String} {id : Nat}

/-- The labels of the stored edges are registered and cannot be taken out, and ids without a label are
as good as new. -/
structure LabelsHeld (s : Session) : Prop where
  registered : ∀ i e, s.store.edges.get? i = some e →
    s.store.labels.labelOf e.label = .ok e.edge.label ∧
      s.store.labels.idOf? e.edge.label = some e.label
  label_eq_iff : ∀ i j e f, s.store.edges.get? i = some e → s.store.edges.get? j = some f →
    (e.label = f.label ↔ e.edge.label = f.edge.label)
  refused : ∀ label id, s.store.labels.idOf? label = some id →
    (∃ edge, s.containsEdge edge = true ∧ edge.label = label) →
    ∃ fault fault', removeLabel label s = (.error fault, s) ∧
      removeLabelId id s = (.error fault', s) ∧ fault.kind = .usage ∧ fault'.kind = .usage
  removed : ∀ label id, s.store.labels.idOf? label = some id →
    (¬ ∃ edge, s.containsEdge edge = true ∧ edge.label = label) →
    ∃ s', removeLabel label s = (.ok (some id), s') ∧ removeLabelId id s = (.ok (some label), s') ∧
      s'.store.labels.idOf? label = none
  vacant : ∀ id, (∀ label, s.store.labels.idOf? label ≠ some id) → s.store.Vacant id
  addLabel_vacant : ∀ label id, s.store.labels.idOf? label = none →
    (addLabel label s).1 = .ok id →
    (addLabel label s).2.store.labels.idOf? label = some id ∧ (addLabel label s).2.store.Vacant id
  perform_vacant : ∀ (command : Command) label id, command.isElemental = true →
    s.store.labels.idOf? label = none →
    (command.perform s).store.labels.idOf? label = some id → s.store.Vacant id

/-! ### Taking labels out -/

theorem removeLabel_apply (label : String) (s : Session) : removeLabel label s =
    if 0 < s.edgeCountOf label then (.error (.labelInUse label (s.edgeCountOf label)), s)
    else (.ok (s.store.labels.remove label).1,
      s.withStore fun store => { store with labels := (s.store.labels.remove label).2 }) := by
  rw [removeLabel]
  simp only [bind_apply, get_apply]
  split <;> rfl

theorem removeLabelId_apply (id : Int) (s : Session) : removeLabelId id s =
    if 0 < s.edgeCountOfId id then (.error (.labelInUse (toString id) (s.edgeCountOfId id)), s)
    else (.ok (s.store.labels.removeId id).1,
      s.withStore fun store => { store with labels := (s.store.labels.removeId id).2 }) := by
  rw [removeLabelId]
  simp only [bind_apply, get_apply]
  split <;> rfl

namespace Consistent

theorem edgeCountOf_pos_iff (hs : s.Consistent order) : 0 < s.edgeCountOf label ↔
    ∃ edge, s.containsEdge edge = true ∧ edge.label = label := by
  have hcount := hs.edgeCountOf_eq_encard label
  rw [Nat.pos_iff_ne_zero, ← Nat.cast_ne_zero (R := ℕ∞), hcount, Set.encard_ne_zero]
  rfl

theorem edgeCountOfId_eq (hs : s.Consistent order) (hid : s.store.labels.idOf? label = some id) :
    s.edgeCountOfId id = s.edgeCountOf label := by
  have hlabel := LabelRegistry.labelOf_eq ((hs.sound.labels_sound.ids_iff label id).mp hid)
  rw [edgeCountOfId, hlabel, edgeCountOf, hid, Int.mem_toNat?.mpr rfl]
  rfl

theorem removeLabel_of_used (hs : s.Consistent order) (hid : s.store.labels.idOf? label = some id)
    (hused : ∃ edge, s.containsEdge edge = true ∧ edge.label = label) :
    removeLabel label s = (.error (.labelInUse label (s.edgeCountOf label)), s) ∧
      removeLabelId id s = (.error (.labelInUse (toString (id : Int)) (s.edgeCountOf label)), s) := by
  have hpos := hs.edgeCountOf_pos_iff.mpr hused
  rw [removeLabel_apply, removeLabelId_apply, hs.edgeCountOfId_eq hid, if_pos hpos, if_pos hpos]
  exact ⟨rfl, rfl⟩

theorem removeLabel_of_unused (hs : s.Consistent order)
    (hid : s.store.labels.idOf? label = some id)
    (hunused : ¬ ∃ edge, s.containsEdge edge = true ∧ edge.label = label) :
    removeLabel label s = (.ok (some id),
      s.withStore fun store => { store with labels := s.store.labels.erase label id }) ∧
    removeLabelId id s = (.ok (some label),
      s.withStore fun store => { store with labels := s.store.labels.erase label id }) := by
  have hzero := mt hs.edgeCountOf_pos_iff.mp hunused
  rw [removeLabel_apply, removeLabelId_apply, hs.edgeCountOfId_eq hid, if_neg hzero, if_neg hzero,
    LabelRegistry.remove_of_idOf? hid,
    LabelRegistry.removeId_of_get? ((hs.sound.labels_sound.ids_iff label id).mp hid)]
  exact ⟨rfl, rfl⟩

/-! ### Ids that are given out -/

theorem vacant_of_unregistered (hs : s.Consistent order)
    (hnone : ∀ label, s.store.labels.idOf? label ≠ some id) : s.store.Vacant id := by
  refine hs.sound.vacant (Option.eq_none_iff_forall_ne_some.mpr fun label hlabel => ?_)
  exact hnone label ((hs.sound.labels_sound.ids_iff label id).mpr hlabel)

theorem vacant_addLabel (hs : s.Consistent order) (hnew : s.store.labels.idOf? label = none)
    (hdone : (addLabel label s).1 = .ok id) :
    (addLabel label s).2.store.labels.idOf? label = some id ∧
      (addLabel label s).2.store.Vacant id := by
  rw [addLabel, onStore_apply] at hdone ⊢
  rcases hs.sound.labels_sound.add_cases label with ⟨fault, hadd⟩ | ⟨other, _, hthere⟩ |
    ⟨fresh, labels, hadd, hlabels, _, hfree, hget⟩
  · rw [hadd] at hdone
    cases hdone
  · rw [(hs.sound.labels_sound.ids_iff label other).mpr hthere] at hnew
    cases hnew
  · rw [hadd] at hdone ⊢
    cases hdone
    refine ⟨(hlabels.ids_iff label id).mpr (by rw [hget, if_pos rfl]), ?_⟩
    obtain ⟨hheads, hcount⟩ := hs.sound.vacant hfree
    exact ⟨hheads, hcount⟩

theorem vacant_perform (hs : s.Consistent order) {command : Command}
    (helemental : command.isElemental = true) (hnew : s.store.labels.idOf? label = none)
    (hid : (command.perform s).store.labels.idOf? label = some id) : s.store.Vacant id := by
  obtain ⟨⟨_, hs'⟩, hstays⟩ := keepsLabels_perform helemental s order hs
  exact hs.sound.vacant
    (hstays.get?_eq_none hs.sound.labels_sound hs'.sound.labels_sound hnew hid)

theorem labelsHeld (hs : s.Consistent order) : s.LabelsHeld where
  registered := by
    intro i e he
    have hlabel : s.store.labels.labels.get? e.label = some e.edge.label :=
      hs.sound.label_of i e.unlinked (Store.Sound.plain?_eq_some he)
    exact ⟨LabelRegistry.labelOf_eq hlabel, (hs.sound.labels_sound.ids_iff _ _).mpr hlabel⟩
  label_eq_iff := by
    intro i j e f he hf
    exact hs.label_eq_iff (e := e.unlinked) (f := f.unlinked) (Store.Sound.plain?_eq_some he)
      (Store.Sound.plain?_eq_some hf)
  refused := by
    intro label id hid hused
    obtain ⟨hname, hnumber⟩ := hs.removeLabel_of_used hid hused
    exact ⟨_, _, hname, hnumber, rfl, rfl⟩
  removed := by
    intro label id hid hunused
    obtain ⟨hname, hnumber⟩ := hs.removeLabel_of_unused hid hunused
    exact ⟨_, hname, hnumber, LabelRegistry.idOf?_erase_self⟩
  vacant := fun _ => hs.vacant_of_unregistered
  addLabel_vacant := fun _ _ => hs.vacant_addLabel
  perform_vacant := fun _ _ _ => hs.vacant_perform

end Consistent

theorem History.labels_held (h : History s edges) : s.LabelsHeld := by
  obtain ⟨order, hs, _⟩ := h.recorded
  exact hs.labelsHeld

theorem labels_held_looped : History looped [selfEdge] ∧ looped.LabelsHeld :=
  ⟨history_looped, history_looped.labels_held⟩

end Session

end PropertyGraph

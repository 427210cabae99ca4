import PropertyGraph.Proofs.Session.Homes

/-!
# Ids in use

Every stored edge has an id, and the indexes of the ids lead to the stored nodes and edges and to no
others. The homes of handles have no part in this, so it holds whatever other stores do.
-/

namespace PropertyGraph.Session

open PropertyGraph.Action

variable {s : Session} {order : List Nat} {edges : List Edge} {edge : Edge}

/-! ### Edges have ids -/

theorem addEdge_of_absent (h : edge.id.isAbsent = true) (s : Session) :
    addEdge edge s = (.error .emptyEdgeId, s) := by
  rw [addEdge, if_pos h]
  rfl

theorem containsEdge_addEdge_of_absent (hs : s.Consistent order) (habsent : edge.id.isAbsent = true)
    (hnot : s.containsEdge edge = false) (other : Edge) :
    (addEdge other s).2.containsEdge edge = false := by
  rw [← Bool.not_eq_true] at hnot ⊢
  intro hthere
  rcases gains_addEdge hs other with ⟨hgains, _⟩ | ⟨hdone, _, hgains⟩
  · rcases (hgains.containsEdge_iff hs).mp hthere with hcame | hbefore
    · cases hcame
    · exact hnot hbefore
  · rcases (hgains.containsEdge_iff hs).mp hthere with hcame | hbefore
    · obtain rfl := List.mem_singleton.mp hcame
      rw [addEdge_of_absent habsent] at hdone
      cases hdone
    · exact hnot hbefore

theorem containsEdge_addEdges_of_absent (hs : s.Consistent order) (habsent : edge.id.isAbsent = true)
    (hnot : s.containsEdge edge = false) (others : List Edge) :
    (addEdges others s).2.containsEdge edge = false := by
  have hstep : ∀ other t, (∃ order, t.Consistent order) ∧ t.containsEdge edge = false →
      (∃ order, (addEdge other t).2.Consistent order) ∧
        (addEdge other t).2.containsEdge edge = false := by
    rintro other t ⟨⟨order, ht⟩, hnot⟩
    exact ⟨exists_consistent_perform ht (.addEdge other),
      containsEdge_addEdge_of_absent ht habsent hnot other⟩
  exact (countEach_snd hstep others ⟨⟨order, hs⟩, hnot⟩).2

theorem History.named (h : History s edges) : ∀ edge ∈ edges, edge.id.isAbsent = false := by
  induction h with
  | opened => simp
  | performed s edges command h ih =>
    obtain ⟨order, hrecorded⟩ := h.recorded
    have hs := hrecorded.consistent
    intro edge hedge
    rcases List.mem_append.mp hedge with hcame | hkept
    · rw [arrivals, List.mem_reverse, List.mem_eraseDups, List.mem_filter, Bool.and_eq_true,
        Bool.not_eq_true'] at hcame
      obtain ⟨hoffered, hthere, hnot⟩ := hcame
      by_contra habsent
      rw [Bool.not_eq_false] at habsent
      -- two calls only are to store edges
      cases command with
      | addEdge other =>
        have hstill := containsEdge_addEdge_of_absent hs habsent hnot other
        exact Bool.false_ne_true (hstill.symm.trans hthere)
      | addEdges others =>
        have hstill := containsEdge_addEdges_of_absent hs habsent hnot others
        exact Bool.false_ne_true (hstill.symm.trans hthere)
      | _ => cases hoffered
    · exact ih edge (List.mem_filter.mp hkept).1
  | elsewhere s edges catalog _ _ _ ih => exact ih

theorem History.id_not_absent (h : History s edges) (hthere : s.containsEdge edge = true) :
    edge.id.isAbsent = false := by
  obtain ⟨order, hrecorded⟩ := h.recorded
  exact h.named edge ((hrecorded.mem_iff edge).mpr hthere)

/-! ### The index leads to them -/

theorem History.listed (h : History s edges) : s.edgeHandles.Listed Edge.id := by
  induction h with
  | opened token config store catalog hopen =>
    cases store_of_open? hopen
    exact .of_empty (edge?_empty token config) fun _ => Std.HashMap.getElem?_empty
  | performed s edges command h ih =>
    obtain ⟨order, hrecorded⟩ := h.recorded
    exact (keeps_perform command s order hrecorded.consistent).1.edges.listed ih
  | elsewhere s edges catalog _ _ _ ih => exact ⟨ih.slot_unique, ih.slotOf_iff⟩

theorem History.nodes_listed (h : History s edges) : s.nodeHandles.Listed Node.id := by
  induction h with
  | opened token config store catalog hopen =>
    cases store_of_open? hopen
    exact .of_empty (node?_empty token config) fun _ => Std.HashMap.getElem?_empty
  | performed s edges command h ih =>
    obtain ⟨order, hrecorded⟩ := h.recorded
    exact (keeps_perform command s order hrecorded.consistent).1.nodes.listed ih
  | elsewhere s edges catalog _ _ _ ih => exact ⟨ih.slot_unique, ih.slotOf_iff⟩

theorem Consistent.contains_id_iff (hs : s.Consistent order) (hlisted : s.edgeHandles.Listed Edge.id)
    (key : ElementId) : s.store.edges.ids.contains key = true ↔
      ∃ edge, s.containsEdge edge = true ∧ edge.id = key := by
  rw [Std.HashMap.contains_eq_isSome_getElem?, Option.isSome_iff_exists]
  constructor
  · rintro ⟨slot, hslot⟩
    obtain ⟨edge, hedge, hid⟩ := (hlisted.slotOf_iff key slot).mp hslot
    exact ⟨edge, hs.containsEdge_iff.mpr ⟨slot, hedge⟩, hid⟩
  · rintro ⟨edge, hthere, hid⟩
    obtain ⟨slot, hedge⟩ := hs.containsEdge_iff.mp hthere
    exact ⟨slot, (hlisted.slotOf_iff key slot).mpr ⟨edge, hedge, hid⟩⟩

end PropertyGraph.Session

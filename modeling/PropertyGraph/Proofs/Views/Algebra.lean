import PropertyGraph.Proofs.ViewClosure
import PropertyGraph.Proofs.Views.Lifecycle

/-!
# The algebra of views

Union and intersection take the members of views for sets. Complement does not: it exchanges members
and others among the nodes, and as edges it takes all that are stored between the others. That this
does not depend on which edges were members is due to the closure of records, by which an edge that
is a member has members for ends and so no end among the others. None of the three touches groups.
-/

namespace PropertyGraph

open PropertyGraph.Action

/-! ### Sets of members -/

/-- The nodes and edges that a view filters by, collapsed groups or not. -/
structure Selection where
  nodes : IdSet
  edges : IdSet
  deriving DecidableEq

namespace Selection

def inter (m other : Selection) : Selection := ⟨m.nodes.inter other.nodes, m.edges.inter other.edges⟩

/-- The nodes are those with a property, and the edges all that are stored between such nodes. -/
structure Span (m : Selection) (s : Store) (picked : Nat → Prop) : Prop where
  node_iff : ∀ n, m.nodes.contains n = true ↔ picked n
  edge_iff : ∀ i, m.edges.contains i = true ↔
    ∃ e, s.edges.get? i = some e ∧ picked e.source ∧ picked e.target

namespace Span

variable {m m' : Selection} {s : Store} {picked picked' : Nat → Prop}

theorem congr (h : m.Span s picked) (hpicked : ∀ n, picked n ↔ picked' n) : m.Span s picked' := by
  obtain rfl : picked = picked' := funext fun n => propext (hpicked n)
  exact h

theorem unique (h : m.Span s picked) (h' : m'.Span s picked) : m = m' := by
  obtain ⟨nodes, edges⟩ := m
  obtain ⟨nodes', edges'⟩ := m'
  obtain rfl : nodes = nodes' := IdSet.ext fun n =>
    Bool.eq_iff_iff.mpr ((h.node_iff n).trans (h'.node_iff n).symm)
  obtain rfl : edges = edges' := IdSet.ext fun i =>
    Bool.eq_iff_iff.mpr ((h.edge_iff i).trans (h'.edge_iff i).symm)
  rfl

theorem inter (h : m.Span s picked) (h' : m'.Span s picked') :
    (m.inter m').Span s fun n => picked n ∧ picked' n where
  node_iff := by
    intro n
    rw [Selection.inter, IdSet.contains_inter, Bool.and_eq_true, h.node_iff, h'.node_iff]
  edge_iff := by
    intro i
    rw [Selection.inter, IdSet.contains_inter, Bool.and_eq_true, h.edge_iff, h'.edge_iff]
    constructor
    · rintro ⟨⟨e, he, hsource, htarget⟩, e', he', hsource', htarget'⟩
      obtain rfl : e = e' := Option.some.inj (he.symm.trans he')
      exact ⟨e, he, ⟨hsource, hsource'⟩, htarget, htarget'⟩
    · rintro ⟨e, he, ⟨hsource, hsource'⟩, htarget, htarget'⟩
      exact ⟨⟨e, he, hsource, htarget⟩, e, he, hsource', htarget'⟩

end Span

end Selection

/-- The property of being stored and not among the given nodes. -/
def Store.IsOther (s : Store) (nodes : IdSet) (n : Nat) : Prop :=
  (∃ node, s.node? n = some node) ∧ nodes.contains n = false

namespace ViewRecord

variable {s : Store} {r o : ViewRecord} {order : List Nat}

def selection (r : ViewRecord) : Selection := ⟨r.nodes, r.edges⟩

/-- The record after members and others among everything stored are exchanged. -/
def complementIn (r : ViewRecord) (s : Store) : ViewRecord :=
  r.complement s.nodes.slots (s.edges.arena.toList.map fun (i, e) => (i, e.source, e.target))

namespace Closed

theorem complementIn (h : r.Closed s) (hs : s.Sound order) : (r.complementIn s).Closed s :=
  (Edit.complement_stored hs).closed h

/-- No edge that is a member has both ends among the others, so the old edges make no difference. -/
theorem span_complementIn (h : r.Closed s) (hs : s.Sound order) :
    (r.complementIn s).selection.Span s (s.IsOther r.nodes) := by
  have hother : ∀ n, ((IdSet.ofList s.nodes.slots).diff r.nodes).contains n = true ↔
      s.IsOther r.nodes n := by
    intro n
    rw [IdSet.contains_diff, IdSet.contains_ofList, Bool.and_eq_true, decide_eq_true_iff,
      hs.mem_nodeSlots, Bool.not_eq_true', Store.IsOther, Option.isSome_iff_exists]
  refine ⟨hother, fun i => ?_⟩
  rw [selection, ViewRecord.complementIn, complement, ViewRecord.setMembers, IdSet.contains_ofList,
    decide_eq_true_iff]
  simp only [List.mem_map, List.mem_filter, Bool.and_eq_true, Bool.not_eq_true', hother]
  constructor
  · rintro ⟨_, ⟨⟨⟨i, e⟩, hmem, rfl⟩, ⟨_, hsource⟩, htarget⟩, rfl⟩
    exact ⟨e, hs.edges_valid.toLaid.mem_toList.mp hmem, hsource, htarget⟩
  · rintro ⟨e, he, hsource, htarget⟩
    refine ⟨(i, e.source, e.target), ⟨⟨(i, e), hs.edges_valid.toLaid.mem_toList.mpr he, rfl⟩,
      ⟨?_, hsource⟩, htarget⟩, rfl⟩
    by_contra hmember
    obtain ⟨x, hx, hends⟩ := h.edge_live i (Bool.eq_true_of_not_eq_false hmember)
    obtain rfl : e.fixed = x := by
      rw [Store.fixed?] at hx
      exact Option.some.inj ((congrArg (Option.map EdgeSlot.fixed) he).symm.trans hx)
    exact Bool.false_ne_true (hsource.2.symm.trans (hends .outgoing))

theorem isOther_complementIn (h : r.Closed s) (hs : s.Sound order) (n : Nat) :
    s.IsOther (r.complementIn s).nodes n ↔ r.nodes.contains n = true := by
  have hnode : (r.complementIn s).nodes.contains n = true ↔ s.IsOther r.nodes n :=
    (h.span_complementIn hs).node_iff n
  rw [Store.IsOther, ← Bool.not_eq_true, hnode, Store.IsOther]
  constructor
  · rintro ⟨hstored, hnot⟩
    by_contra hmember
    exact hnot ⟨hstored, Bool.eq_false_of_not_eq_true hmember⟩
  · intro hmember
    refine ⟨Option.isSome_iff_exists.mp (h.node_live n hmember), fun hother => ?_⟩
    exact Bool.false_ne_true (hother.2.symm.trans hmember)

theorem span_complementIn_twice (h : r.Closed s) (hs : s.Sound order) :
    ((r.complementIn s).complementIn s).selection.Span s (r.nodes.contains · = true) :=
  ((h.complementIn hs).span_complementIn hs).congr (h.isOther_complementIn hs)

theorem complementIn_thrice (h : r.Closed s) (hs : s.Sound order) :
    (((r.complementIn s).complementIn s).complementIn s).selection = (r.complementIn s).selection := by
  have hspan := h.span_complementIn hs
  refine ((h.complementIn hs).span_complementIn_twice hs).unique (hspan.congr fun n => ?_)
  exact (hspan.node_iff n).symm

theorem complementIn_union (h : r.Closed s) (ho : o.Closed s) (hs : s.Sound order) :
    ((r.union o.nodes o.edges).complementIn s).selection =
      (r.complementIn s).selection.inter (o.complementIn s).selection := by
  have hboth := (h.span_complementIn hs).inter (ho.span_complementIn hs)
  refine (((Edit.union ho).closed h).span_complementIn hs).unique (hboth.congr fun n => ?_)
  change _ ↔ s.IsOther (r.nodes.union o.nodes) n
  rw [Store.IsOther, Store.IsOther, Store.IsOther, IdSet.contains_union, Bool.or_eq_false_iff]
  tauto

end Closed

end ViewRecord

/-- The action is accepted, and afterwards the view selects what is given. -/
def Action.Selects (a : Action Unit) (s : Session) (view : View) (m : Selection) : Prop :=
  ∃ s' r, a s = (.ok (), s') ∧ s'.viewRecord view = .ok r ∧ r.selection = m

namespace Session

variable {s : Session} {edges : List Edge} {view other : View} {r o : ViewRecord} {m : Selection}
  {a b : Action Unit}

/-! ### Calls on live views -/

theorem viewRecord_setRecord_of_ne (hr : s.viewRecord view = .ok r) (hne : other.slot ≠ view.slot)
    (r' : ViewRecord) :
    (s.setRecord view r').viewRecord other = s.viewRecord other := by
  refine ViewRun.viewRecord_congr rfl rfl ?_
  rw [get?_setRecord (get?_of_viewRecord hr), if_neg hne]

theorem viewComplement_of_live (hr : s.viewRecord view = .ok r) :
    viewComplement view s = (.ok (), s.setRecord view (r.complementIn s.store)) := by
  rw [viewComplement, bind_apply, get_apply]
  exact editView_of_live hr rfl

theorem viewUnion_of_live (hr : s.viewRecord view = .ok r) (ho : s.viewRecord other = .ok o) :
    viewUnion view other s = (.ok (), s.setRecord view (r.union o.nodes o.edges)) := by
  rw [viewUnion, bind_apply, ask_apply, ho]
  exact editView_of_live hr rfl

theorem viewIntersection_of_live (hr : s.viewRecord view = .ok r) (ho : s.viewRecord other = .ok o) :
    viewIntersection view other s = (.ok (), s.setRecord view (r.inter o.nodes o.edges)) := by
  rw [viewIntersection, bind_apply, ask_apply, ho]
  exact editView_of_live hr rfl

theorem selects_complement (hr : s.viewRecord view = .ok r) :
    (viewComplement view).Selects s view (r.complementIn s.store).selection :=
  ⟨_, _, viewComplement_of_live hr, viewRecord_setRecord hr _, rfl⟩

theorem selects_intersection (hr : s.viewRecord view = .ok r) (ho : s.viewRecord other = .ok o) :
    (viewIntersection view other).Selects s view (r.selection.inter o.selection) :=
  ⟨_, _, viewIntersection_of_live hr ho, viewRecord_setRecord hr _, rfl⟩

theorem selects_bind {s' : Session} (ha : a s = (.ok (), s')) (hb : b.Selects s' view m) :
    (a >>= fun _ => b).Selects s view m := by
  obtain ⟨s'', r, hrun, hr, hm⟩ := hb
  refine ⟨s'', r, ?_, hr, hm⟩
  rw [bind_apply, ha]
  exact hrun

/-! ### The laws -/

def KeepsGroups (s s' : Session) : Prop :=
  ∀ slot, (s'.store.views.arena.get? slot).map (·.groups) =
    (s.store.views.arena.get? slot).map (·.groups)

/-- The laws of complement, union and intersection for the views that can be reached. -/
structure ComplementLaws (s : Session) : Prop where
  /-- Complement leaves the other nodes and all edges between them, whatever edges were members. -/
  once : ∀ view r, s.viewRecord view = .ok r → ∃ m, (viewComplement view).Selects s view m ∧
    m.Span s.store (s.store.IsOther r.nodes)
  /-- The complement of the complement has the nodes of the view and all edges between them. -/
  twice : ∀ view r, s.viewRecord view = .ok r → ∃ m,
    (do viewComplement view; viewComplement view : Action Unit).Selects s view m ∧
      m.Span s.store (r.nodes.contains · = true)
  thrice : ∀ view r, s.viewRecord view = .ok r → ∃ m, (viewComplement view).Selects s view m ∧
    (do viewComplement view; viewComplement view; viewComplement view : Action Unit).Selects s view m
  /-- The complement of the union is the intersection of the complements. That is also what the
  calls make of them one after the other, as long as the views are two. -/
  de_morgan : ∀ view other r o, s.viewRecord view = .ok r → s.viewRecord other = .ok o → ∃ m m',
    (viewComplement view).Selects s view m ∧ (viewComplement other).Selects s other m' ∧
      (do viewUnion view other; viewComplement view : Action Unit).Selects s view (m.inter m') ∧
        (view.slot ≠ other.slot →
          (do viewComplement view; viewComplement other; viewIntersection view other :
            Action Unit).Selects s view (m.inter m'))
  /-- No groups change, whether the call is accepted or not. -/
  groups : ∀ view other, s.KeepsGroups (viewUnion view other s).2 ∧
    s.KeepsGroups (viewIntersection view other s).2 ∧ s.KeepsGroups (viewComplement view s).2

theorem keepsGroups_changeView {f : ViewRecord → ViewRecord} (hf : ∀ r, (f r).groups = r.groups) :
    (changeView view f).Leads s s.KeepsGroups := by
  rw [Leads, changeView]
  rcases editView_cases view (fun record => .ok ((), f record)) s with
    ⟨fault, h⟩ | ⟨r, _, r', hr, hdone, h⟩
  · rw [h]
    exact fun _ => rfl
  · rw [h]
    cases hdone
    intro slot
    have hget := get?_of_viewRecord hr
    rw [get?_setRecord hget]
    split
    · next heq => rw [heq, hget, Option.map_some, Option.map_some, hf]
    · rfl

theorem History.complementLaws (h : History s edges) : s.ComplementLaws := by
  obtain ⟨order, hs, _⟩ := h.recorded
  have hsound := hs.sound
  have hclosed : ∀ {view r}, s.viewRecord view = .ok r → r.Closed s.store := fun hr =>
    hs.closed _ _ (get?_of_viewRecord hr)
  constructor
  case once =>
    intro view r hr
    exact ⟨_, selects_complement hr, (hclosed hr).span_complementIn hsound⟩
  case twice =>
    intro view r hr
    have hnot := viewComplement_of_live hr
    exact ⟨_, selects_bind hnot (selects_complement (viewRecord_setRecord hr _)),
      (hclosed hr).span_complementIn_twice hsound⟩
  case thrice =>
    intro view r hr
    have hnot := viewComplement_of_live hr
    have hr' := viewRecord_setRecord hr (r.complementIn s.store)
    have hthree := selects_bind hnot (selects_bind (viewComplement_of_live hr')
      (selects_complement (viewRecord_setRecord hr' _)))
    exact ⟨_, selects_complement hr, (hclosed hr).complementIn_thrice hsound ▸ hthree⟩
  case de_morgan =>
    intro view other r o hr ho
    refine ⟨_, _, selects_complement hr, selects_complement ho, ?_, fun hne => ?_⟩
    · have hboth := selects_bind (viewUnion_of_live hr ho)
        (selects_complement (viewRecord_setRecord hr _))
      exact (hclosed hr).complementIn_union (hclosed ho) hsound ▸ hboth
    · have hnot := viewComplement_of_live hr
      have hr' := viewRecord_setRecord hr (r.complementIn s.store)
      have ho' := (viewRecord_setRecord_of_ne hr hne.symm (r.complementIn s.store)).trans ho
      have hr'' := (viewRecord_setRecord_of_ne ho' hne (o.complementIn s.store)).trans hr'
      exact selects_bind hnot (selects_bind (viewComplement_of_live ho')
        (selects_intersection hr'' (viewRecord_setRecord ho' _)))
  case groups =>
    intro view other
    refine ⟨?_, ?_, ?_⟩
    · exact Leads.ask_bind (P := s.KeepsGroups) (fun _ => rfl) fun _ _ =>
        keepsGroups_changeView fun _ => rfl
    · exact Leads.ask_bind (P := s.KeepsGroups) (fun _ => rfl) fun _ _ =>
        keepsGroups_changeView fun _ => rfl
    · exact Leads.get_bind (P := s.KeepsGroups) (keepsGroups_changeView fun _ => rfl)

/-- In the example the view has one member, which the collapsed group hides. The complement has the
other node instead. -/
theorem complementLaws_collapsedRecord : (withView collapsedRecord).ComplementLaws ∧
    (withView collapsedRecord).viewRecord exampleView = .ok collapsedRecord ∧
    (viewComplement exampleView).Selects (withView collapsedRecord) exampleView ⟨⟨1⟩, ⟨0⟩⟩ :=
  ⟨history_collapsedRecord.complementLaws, viewRecord_withView _,
    selects_complement (viewRecord_withView _)⟩

end Session

end PropertyGraph

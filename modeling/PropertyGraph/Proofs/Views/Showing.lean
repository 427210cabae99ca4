import PropertyGraph.Proofs.ViewClosure
import PropertyGraph.Proofs.Walks.Around
import PropertyGraph.Proofs.Walks.Through

/-!
# What a view shows

A view answers in several ways what it shows: it says so of single nodes and edges, it counts and
lists them, its iterators come to them, its snapshots hold them, and the edges are counted once more
at every node. All of that agrees. The members are counted without looking into the store, so it takes
closed records: each member is stored, in one slot.
-/

namespace PropertyGraph

theorem sum_countP_keys {α : Type} {keys : List Nat} (hnodup : keys.Nodup) (l : List α)
    (test : α → Bool) (key : α → Nat) :
    (keys.map fun k => l.countP fun x => test x && key x == k).sum =
      l.countP fun x => test x && decide (key x ∈ keys) := by
  induction keys with
  | nil => simp
  | cons k rest ih =>
    obtain ⟨hnew, hrest⟩ := List.nodup_cons.mp hnodup
    rw [List.map_cons, List.sum_cons, ih hrest]
    conv_rhs => rw [List.countP_eq_countP_filter_add l _ (key · == k), List.countP_filter,
      List.countP_filter]
    congr 1 <;> refine List.countP_congr fun x _ => ?_
    · by_cases hx : key x = k <;> simp [hx]
    · by_cases hx : key x = k <;> simp [hx, hnew]

namespace ViewRecord

variable {s : Session} {r : ViewRecord} {order : List Nat} {n i : Nat}

/-! ### Members that are shown -/

theorem hides_of_flat (h : r.groups = none) (n : Nat) : r.hides n = false := by
  rw [hides, h]
  rfl

theorem showsNode_eq (hn : n ∈ r.nodes.toList) : r.showsNode n = !r.hides n := by
  rw [showsNode, IdSet.mem_toList.mp hn, Bool.true_and]

theorem nodeCount_eq (r : ViewRecord) : r.nodeCount = (r.nodes.toList.filter r.showsNode).length := by
  rw [nodeCount, List.filter_congr fun n hn => showsNode_eq hn]
  cases hgroups : r.groups with
  | none =>
    rw [List.filter_eq_self.mpr fun n _ => by rw [hides_of_flat hgroups]; rfl]
    rfl
  | some f =>
    simp only
    congr 2
    funext n
    rw [hides, hgroups, Option.any_some]

theorem perm_edges (hs : s.store.Sound order) (r : ViewRecord) :
    (r.edges.toList.filter (s.recordShowsEdge r)).Perm
      (s.store.edges.slots.filter (s.recordShowsEdge r)) := by
  refine (List.perm_ext_iff_of_nodup (IdSet.nodup_toList.filter _)
    (hs.edges_valid.toLaid.nodup_slots.filter _)).mpr fun i => ?_
  rw [List.mem_filter, List.mem_filter]
  refine and_congr_left fun hshown => ?_
  rw [Session.recordShowsEdge, Option.any_eq_true] at hshown
  obtain ⟨e, he, hmember⟩ := hshown
  rw [showsEdge, Bool.and_eq_true, Bool.and_eq_true] at hmember
  exact iff_of_true (IdSet.mem_toList.mpr hmember.1.1)
    (hs.edges_valid.toLaid.mem_slots.mpr (Option.isSome_of_eq_some he))

namespace Closed

variable (h : r.Closed s.store)
include h

theorem perm_nodes (hs : s.store.Sound order) :
    (r.nodes.toList.filter r.showsNode).Perm (s.store.nodes.slots.filter r.showsNode) := by
  refine (List.perm_ext_iff_of_nodup (IdSet.nodup_toList.filter _)
    (hs.nodes_valid.toLaid.nodup_slots.filter _)).mpr fun n => ?_
  rw [List.mem_filter, List.mem_filter]
  refine and_congr_left fun hshown => ?_
  rw [showsNode, Bool.and_eq_true] at hshown
  exact iff_of_true (IdSet.mem_toList.mpr hshown.1) (hs.mem_nodeSlots.mpr (h.node_live n hshown.1))

theorem exists_of_edge (hi : r.edges.contains i = true) : ∃ e, s.store.edges.get? i = some e := by
  obtain ⟨x, hx, _⟩ := h.edge_live i hi
  obtain ⟨e, he, _⟩ := Option.map_eq_some_iff.mp hx
  exact ⟨e, he⟩

theorem showsEdge_of_flat (hflat : r.groups = none) (hi : i ∈ r.edges.toList) :
    s.recordShowsEdge r i = true := by
  have hmember := IdSet.mem_toList.mp hi
  obtain ⟨e, he⟩ := h.exists_of_edge hmember
  rw [Session.recordShowsEdge, he, Option.any_some, showsEdge, hmember, hides_of_flat hflat,
    hides_of_flat hflat]
  rfl

end Closed

end ViewRecord

namespace Session

open GraphSpace ViewRecord

variable {s : Session} {order : List Nat} {edges : List Edge} {view : View} {r : ViewRecord}
  {node : Node} {edge : Edge} {n i : Nat} {direction : Direction}

/-- The view shows these nodes and edges, whichever way it is asked. -/
structure ShowsExactly (s : Session) (view : View) (nodes : List Node) (edges : List Edge) : Prop where
  mem_nodes : ∀ node, node ∈ nodes ↔
    s.containsNode node = true ∧ s.viewShowsNode view node = .ok true
  mem_edges : ∀ edge, edge ∈ edges ↔
    s.containsEdge edge = true ∧ s.viewShowsEdge view edge = .ok true
  nodes_ordered : nodes.Pairwise fun node node' => ∃ n m,
    s.nodeSlot? node = .ok (some n) ∧ s.nodeSlot? node' = .ok (some m) ∧ n < m
  edges_ordered : edges.Pairwise fun edge edge' => ∃ i j,
    s.edgeSlot? edge = .ok (some i) ∧ s.edgeSlot? edge' = .ok (some j) ∧ i < j
  viewNodes : s.viewNodes view = .ok nodes
  viewEdges : s.viewEdges view = .ok edges
  nodeCount : s.viewNodeCount view = .ok nodes.length
  edgeCount : s.viewEdgeCount view = .ok edges.length
  snapshot : ∃ snapshot, s.snapshot (some view) = .ok snapshot ∧
    (∀ node, node ∈ snapshot.nodes ↔ node ∈ nodes) ∧ ∀ edge, edge ∈ snapshot.edges ↔ edge ∈ edges
  /-- Where a read hold is granted, an iterator over the nodes is opened, and comes to these. -/
  nodesThrough : ∀ {g : Graph} {space space' : GraphSpace} {hold : Lock.Hold},
    space.session? g = some s → g.enter .read space = (.ok hold, space') →
    ∃ it, (Query.nodesThrough view).iterator g space = (.ok it, space') ∧
      it.Lists space' (nodes.map .node)
  edgesThrough : ∀ {g : Graph} {space space' : GraphSpace} {hold : Lock.Hold},
    space.session? g = some s → g.enter .read space = (.ok hold, space') →
    ∃ it, (Query.edgesThrough view).iterator g space = (.ok it, space') ∧
      it.Lists space' (edges.map (.edge · (some .outgoing)))
  /-- Every edge is counted at its source as outgoing, and at either end in all. -/
  degrees : ∃ degree : Node → Direction → Nat,
    (∀ node direction, s.containsNode node = true →
      s.viewDegree view node direction = .ok (degree node direction)) ∧
    (s.store.nodes.nodes.map (degree · .outgoing)).sum = edges.length ∧
    (s.store.nodes.nodes.map (degree · .incoming)).sum = edges.length ∧
    (s.store.nodes.nodes.map (degree · .both)).sum = 2 * edges.length

/-! ### Lists -/

theorem viewShowsNode_eq (hr : s.viewRecord view = .ok r) (hslot : s.nodeSlot? node = .ok (some n)) :
    s.viewShowsNode view node = .ok (r.showsNode n) := by
  rw [viewShowsNode, hr, ok_bind, hslot]
  rfl

theorem viewShowsEdge_eq (hr : s.viewRecord view = .ok r) (hslot : s.edgeSlot? edge = .ok (some i)) :
    s.viewShowsEdge view edge = .ok (s.recordShowsEdge r i) := by
  rw [viewShowsEdge, hr, ok_bind, hslot]
  rfl

theorem Consistent.mem_edgeSlots_of_edgeSlot? (hs : s.Consistent order)
    (hslot : s.edgeSlot? edge = .ok (some i)) : i ∈ s.store.edges.slots := by
  rw [hs.sound.mem_edgeSlots, ← Option.isSome_map, ← Store.edge?_eq, edge?_of_edgeSlot? hslot]
  rfl

section Live

variable (hs : s.Consistent order) (hr : s.viewRecord view = .ok r)
include hs

theorem Consistent.length_nodesShown (r : ViewRecord) :
    (s.nodesShown r.showsNode 0).length = (s.store.nodes.slots.filter r.showsNode).length := by
  rw [nodesShown_zero, List.length_filterMap_eq_countP, List.countP_eq_length.mpr]
  intro n hn
  exact hs.sound.mem_nodeSlots.mp (List.mem_of_mem_filter hn)

theorem Consistent.length_edgesShown (r : ViewRecord) :
    (s.edgesShown r 0).length = (s.store.edges.slots.filter (s.recordShowsEdge r)).length := by
  rw [edgesShown_zero, List.length_filterMap_eq_countP, List.countP_eq_length.mpr]
  intro i hi
  have hlive := hs.sound.mem_edgeSlots.mp (List.mem_of_mem_filter hi)
  rwa [Store.edge?_eq, Option.isSome_map]

include hr

theorem Consistent.mem_nodesShown_iff : node ∈ s.nodesShown r.showsNode 0 ↔
    s.containsNode node = true ∧ s.viewShowsNode view node = .ok true := by
  rw [nodesShown_zero, List.mem_filterMap, containsNode_iff_nodeSlot?]
  constructor
  · rintro ⟨n, hmem, hnode⟩
    have hslot := hs.nodeSlot?_eq hnode
    exact ⟨⟨n, hslot⟩, by rw [viewShowsNode_eq hr hslot, List.of_mem_filter hmem]⟩
  · rintro ⟨⟨n, hslot⟩, hshown⟩
    rw [viewShowsNode_eq hr hslot, Except.ok.injEq] at hshown
    have hnode := node?_of_nodeSlot? hslot
    exact ⟨n, List.mem_filter.mpr
      ⟨hs.sound.mem_nodeSlots.mpr (Option.isSome_of_eq_some hnode), hshown⟩, hnode⟩

theorem Consistent.mem_edgesShown_iff : edge ∈ s.edgesShown r 0 ↔
    s.containsEdge edge = true ∧ s.viewShowsEdge view edge = .ok true := by
  rw [edgesShown_zero, List.mem_filterMap, containsEdge_iff_edgeSlot?]
  constructor
  · rintro ⟨i, hmem, hedge⟩
    have hslot := hs.edgeSlot?_eq hedge
    exact ⟨⟨i, hslot⟩, by rw [viewShowsEdge_eq hr hslot, List.of_mem_filter hmem]⟩
  · rintro ⟨⟨i, hslot⟩, hshown⟩
    rw [viewShowsEdge_eq hr hslot, Except.ok.injEq] at hshown
    exact ⟨i, List.mem_filter.mpr ⟨hs.mem_edgeSlots_of_edgeSlot? hslot, hshown⟩,
      edge?_of_edgeSlot? hslot⟩

theorem Consistent.viewShowsEdge_iff (hslot : s.edgeSlot? edge = .ok (some i)) :
    s.viewShowsEdge view edge = .ok true ↔ r.edges.contains i = true ∧
      s.viewShowsNode view edge.source = .ok true ∧ s.viewShowsNode view edge.target = .ok true := by
  obtain ⟨e, he, rfl⟩ := Option.map_eq_some_iff.mp (edge?_of_edgeSlot? hslot)
  have hend := fun p => hs.sound.node_of_end i _ p (Store.Sound.plain?_eq_some he)
  have hsource := viewShowsNode_eq hr (hs.nodeSlot?_eq (hend .outgoing))
  have htarget := viewShowsNode_eq hr (hs.nodeSlot?_eq (hend .incoming))
  have hshown : s.recordShowsEdge r i = r.showsEdge i e.source e.target := by
    rw [recordShowsEdge, he]
    rfl
  have hmembers : r.edges.contains i = true → ∀ p : Phase, r.nodes.contains (e.ends.get p) = true := by
    intro hi
    obtain ⟨x, hx, hends⟩ := (hs.closed _ r (get?_of_viewRecord hr)).edge_live i hi
    rw [Store.fixed?_eq, Store.Sound.plain?_eq_some he] at hx
    cases hx
    exact hends
  change _ ↔ _ ∧ s.viewShowsNode view (e.edge.node .source) = _ ∧
    s.viewShowsNode view (e.edge.node .target) = _
  rw [viewShowsEdge_eq hr hslot, hshown,
    show s.viewShowsNode view (e.edge.node .source) = _ from hsource,
    show s.viewShowsNode view (e.edge.node .target) = _ from htarget]
  simp only [Except.ok.injEq, showsEdge, showsNode, Bool.and_eq_true, and_assoc]
  constructor
  · rintro ⟨hi, hA, hB⟩
    exact ⟨hi, hmembers hi .outgoing, hA, hmembers hi .incoming, hB⟩
  · rintro ⟨hi, _, hA, _, hB⟩
    exact ⟨hi, hA, hB⟩

theorem Consistent.viewNodeCount_eq :
    s.viewNodeCount view = .ok (s.nodesShown r.showsNode 0).length := by
  have hclosed := hs.closed _ r (get?_of_viewRecord hr)
  rw [viewNodeCount, hr, hs.length_nodesShown, ← (hclosed.perm_nodes hs.sound).length_eq,
    ← r.nodeCount_eq]
  rfl

theorem Consistent.viewEdgeCount_eq :
    s.viewEdgeCount view = .ok (s.edgesShown r 0).length := by
  have hclosed := hs.closed _ r (get?_of_viewRecord hr)
  rw [viewEdgeCount, hr, hs.length_edgesShown, ← (perm_edges hs.sound r).length_eq, ok_bind]
  cases hgroups : r.groups with
  | none =>
    rw [List.filter_eq_self.mpr fun i hi => hclosed.showsEdge_of_flat hgroups hi]
    rfl
  | some f => rfl

end Live

theorem Consistent.ordered_nodesShown (hs : s.Consistent order) (r : ViewRecord) :
    (s.nodesShown r.showsNode 0).Pairwise fun node node' => ∃ n m,
      s.nodeSlot? node = .ok (some n) ∧ s.nodeSlot? node' = .ok (some m) ∧ n < m := by
  rw [nodesShown_zero, List.pairwise_filterMap]
  refine (hs.sound.nodes_valid.toLaid.pairwise_lt_slots.filter _).imp fun {n m} hlt => ?_
  intro node hn node' hm
  exact ⟨n, m, hs.nodeSlot?_eq hn, hs.nodeSlot?_eq hm, hlt⟩

theorem Consistent.ordered_edgesShown (hs : s.Consistent order) (r : ViewRecord) :
    (s.edgesShown r 0).Pairwise fun edge edge' => ∃ i j,
      s.edgeSlot? edge = .ok (some i) ∧ s.edgeSlot? edge' = .ok (some j) ∧ i < j := by
  rw [edgesShown_zero, List.pairwise_filterMap]
  refine (hs.sound.edges_valid.toLaid.pairwise_lt_slots.filter _).imp fun {i j} hlt => ?_
  intro edge hi edge' hj
  exact ⟨i, j, hs.edgeSlot?_eq hi, hs.edgeSlot?_eq hj, hlt⟩

/-! ### Degrees -/

/-- The number of edges at a node that a view with this record shows. -/
def shownAt (s : Session) (order : List Nat) (r : ViewRecord) (n : Nat) (p : Phase) : Nat :=
  order.countP fun i => s.recordShowsEdge r i && (s.store.plain? i).any (·.endsAt p n)

theorem Consistent.viewDegree_eq (hs : s.Consistent order) (hr : s.viewRecord view = .ok r)
    (hslot : s.nodeSlot? node = .ok (some n)) (direction : Direction) :
    s.viewDegree view node direction =
      .ok (direction.phases.map (s.shownAt order r n)).sum := by
  have hcount : ∀ p : Phase, (s.store.course order p n (s.store.labelIds none)).countP
      (fun i => s.recordShowsEdge r i) = s.shownAt order r n p := by
    intro p
    rw [(hs.perm_course p n).countP_eq, List.countP_filter, shownAt]
  rw [viewDegree, hr, ok_bind, hs.adjacency_eq hslot, filter_shows_false, ok_bind]
  change Except.ok (List.length (List.filter _ _)) = _
  rw [hs.filter_filterMap_edgeAlong, length_filterMap_slotsAround]
  congr 3
  exact funext hcount

/-- Node by node, all edges are counted that the view shows. -/
theorem Consistent.sum_shownAt (hs : s.Consistent order) (r : ViewRecord) (p : Phase) :
    (s.store.nodes.slots.map (s.shownAt order r · p)).sum = (s.edgesShown r 0).length := by
  have hend : ∀ i ∈ order, ∃ e, s.store.plain? i = some e ∧ e.ends.get p ∈ s.store.nodes.slots := by
    intro i hi
    obtain ⟨e, he⟩ := Option.isSome_iff_exists.mp ((hs.sound.mem_iff i).mp hi)
    exact ⟨e, he, hs.sound.mem_nodeSlots.mpr
      (Option.isSome_of_eq_some (hs.sound.node_of_end i e p he))⟩
  calc (s.store.nodes.slots.map (s.shownAt order r · p)).sum
      = (s.store.nodes.slots.map fun n => order.countP fun i => s.recordShowsEdge r i &&
          ((s.store.plain? i).map (·.ends.get p)).getD 0 == n).sum := by
        refine congrArg List.sum (List.map_congr_left fun n _ => List.countP_congr fun i hi => ?_)
        obtain ⟨e, he, _⟩ := hend i hi
        rw [he]
        rfl
    _ = order.countP fun i => s.recordShowsEdge r i && decide
          (((s.store.plain? i).map (·.ends.get p)).getD 0 ∈ s.store.nodes.slots) :=
        sum_countP_keys hs.sound.nodes_valid.toLaid.nodup_slots order _ _
    _ = order.countP (s.recordShowsEdge r) := by
        refine List.countP_congr fun i hi => ?_
        obtain ⟨e, he, hmem⟩ := hend i hi
        rw [he, Option.map_some, Option.getD_some, decide_eq_true hmem, Bool.and_true]
    _ = (s.edgesShown r 0).length := by
        rw [hs.length_edgesShown, hs.perm_slots.countP_eq, List.countP_eq_length_filter]
        rfl

theorem Consistent.sum_viewDegree (hs : s.Consistent order) (hr : s.viewRecord view = .ok r)
    {degree : Node → Nat}
    (hdegree : ∀ node, s.containsNode node = true →
      s.viewDegree view node direction = .ok (degree node)) :
    (s.store.nodes.nodes.map degree).sum = direction.phases.length * (s.edgesShown r 0).length := by
  have hslots : s.store.nodes.nodes.map degree = s.store.nodes.slots.map fun n =>
      (direction.phases.map (s.shownAt order r n)).sum := by
    rw [NodeTable.nodes, NodeTable.slots, Arena.values, List.map_map, List.map_map, List.map_map]
    refine List.map_congr_left fun x hx => ?_
    have hN : s.store.nodes.get? x.1 = some x.2 := hs.sound.nodes_valid.toLaid.mem_toList.mp hx
    have hslot := hs.nodeSlot?_eq (Store.node?_eq_some hN)
    have hstored := hdegree x.2.node (containsNode_iff_nodeSlot?.mpr ⟨x.1, hslot⟩)
    rw [hs.viewDegree_eq hr hslot, Except.ok.injEq] at hstored
    exact hstored.symm
  rw [hslots]
  cases direction with
  | outgoing => simpa [Direction.phases] using hs.sum_shownAt r .outgoing
  | incoming => simpa [Direction.phases] using hs.sum_shownAt r .incoming
  | both => simp [Direction.phases, List.sum_map_add, hs.sum_shownAt, Nat.two_mul]

/-! ### All of it together -/

theorem Consistent.showsExactly (hs : s.Consistent order) (hr : s.viewRecord view = .ok r) :
    s.ShowsExactly view (s.nodesShown r.showsNode 0) (s.edgesShown r 0) := by
  have hnodes : s.viewNodes view = .ok (s.nodesShown r.showsNode 0) := by
    rw [Session.viewNodes, hr, nodesShown_zero]
    rfl
  have hedges : s.viewEdges view = .ok (s.edgesShown r 0) := by
    rw [Session.viewEdges, hr, edgesShown_zero]
    rfl
  constructor
  case mem_nodes => exact fun _ => hs.mem_nodesShown_iff hr
  case mem_edges => exact fun _ => hs.mem_edgesShown_iff hr
  case nodes_ordered => exact hs.ordered_nodesShown r
  case edges_ordered => exact hs.ordered_edgesShown r
  case viewNodes => exact hnodes
  case viewEdges => exact hedges
  case nodeCount => exact hs.viewNodeCount_eq hr
  case edgeCount => exact hs.viewEdgeCount_eq hr
  case snapshot =>
    refine ⟨{ nodes := .ofList (s.nodesShown r.showsNode 0), edges := .ofList (s.edgesShown r 0) }, ?_,
      fun _ => Std.HashSet.mem_ofList.trans List.contains_iff_mem,
      fun _ => Std.HashSet.mem_ofList.trans List.contains_iff_mem⟩
    rw [Session.snapshot, hnodes, hedges]
    rfl
  case nodesThrough =>
    intro g space space' hold hspace henter
    have hspace' : space'.session? g = some s := by
      have hsame := (sameSessions_enter g .read space).session? g
      rwa [henter, hspace] at hsame
    exact ⟨_, Query.iterator_nodesThrough henter hspace hr,
      NodeIterator.lists_of_shows hs.sound.nodes_valid
        (NodeIterator.shows?_of_viewRecord hr rfl) hspace'⟩
  case edgesThrough =>
    intro g space space' hold hspace henter
    have hspace' : space'.session? g = some s := by
      have hsame := (sameSessions_enter g .read space).session? g
      rwa [henter, hspace] at hsame
    exact ⟨_, Query.iterator_edgesThrough henter hspace hr,
      EdgeIterator.lists_through hs.sound hr rfl rfl hspace'⟩
  case degrees =>
    have hdegree : ∀ node direction, s.containsNode node = true →
        s.viewDegree view node direction =
          .ok ((s.viewDegree view node direction).toOption.getD 0) := by
      intro node direction hnode
      obtain ⟨n, hslot⟩ := containsNode_iff_nodeSlot?.mp hnode
      rw [hs.viewDegree_eq hr hslot]
      rfl
    refine ⟨fun node direction => (s.viewDegree view node direction).toOption.getD 0, hdegree,
      ?_, ?_, ?_⟩
    · exact (hs.sum_viewDegree hr fun node => hdegree node .outgoing).trans (Nat.one_mul _)
    · exact (hs.sum_viewDegree hr fun node => hdegree node .incoming).trans (Nat.one_mul _)
    · exact hs.sum_viewDegree hr fun node => hdegree node .both

theorem History.shows_exactly (h : History s edges) (hr : s.viewRecord view = .ok r) :
    ∃ nodes edges, s.ShowsExactly view nodes edges := by
  obtain ⟨order, hs, _⟩ := h.recorded
  exact ⟨_, _, hs.showsExactly hr⟩

theorem slots_sampleStore :
    sampleStore.store.nodes.slots = pairedLooped.store.nodes.slots ∧
      sampleStore.store.edges.slots = pairedLooped.store.edges.slots := by
  rw [sampleStore_eq, regroupedStore_eq, filledStore_eq]
  exact ⟨rfl, rfl⟩

theorem contains_sampleRecord (i : Nat) :
    sampleRecord.nodes.contains i = decide (i ∈ sampleStore.store.nodes.slots) ∧
      sampleRecord.edges.contains i = decide (i ∈ sampleStore.store.edges.slots) := by
  have hfilled : ∀ slots : List Nat,
      (slots.foldl IdSet.insert IdSet.empty).contains i = decide (i ∈ slots) := by
    intro slots
    rw [IdSet.contains_foldl_insert, IdSet.contains_empty, Bool.false_or]
  rw [slots_sampleStore.1, slots_sampleStore.2]
  exact ⟨hfilled _, hfilled _⟩

theorem viewShowsNode_sampleStore :
    sampleStore.viewShowsNode exampleView nodeA = .ok true ∧
      sampleStore.viewShowsNode exampleView nodeB = .ok false := by
  obtain ⟨order, hs, _⟩ := history_sampleStore.recorded
  have hmember : ∀ n node, sampleStore.store.node? n = some node →
      sampleRecord.nodes.contains n = true := by
    intro n node hn
    rw [(contains_sampleRecord n).1, decide_eq_true_iff, hs.sound.mem_nodeSlots, hn]
    rfl
  have hshows : ∀ n node, sampleStore.store.node? n = some node →
      sampleStore.viewShowsNode exampleView node = .ok (!collapsedAB.isHidden n) := by
    intro n node hn
    rw [viewShowsNode_eq viewRecord_sampleStore (hs.nodeSlot?_eq hn), showsNode, hmember n node hn]
    rfl
  obtain ⟨hA, hB⟩ := node?_sampleStore
  rw [hshows 0 nodeA hA, hshows 1 nodeB hB, isHidden_collapsedAB.1, isHidden_collapsedAB.2]
  exact ⟨rfl, rfl⟩

/-- The view of the sample store shows the first node and its loop. It hides the second node, and so the
edges of the pair. -/
theorem shows_exactly_sampleStore : sampleStore.viewRecord exampleView = .ok sampleRecord ∧
    (∃ nodes edges, sampleStore.ShowsExactly exampleView nodes edges) ∧
    sampleStore.viewShowsNode exampleView nodeA = .ok true ∧
    sampleStore.viewShowsNode exampleView nodeB = .ok false ∧
    sampleStore.viewShowsEdge exampleView loopA = .ok true ∧
    sampleStore.viewShowsEdge exampleView edgeAB = .ok false := by
  obtain ⟨order, hrecorded⟩ := history_sampleStore.recorded
  have hs := hrecorded.consistent
  have hr := viewRecord_sampleStore
  obtain ⟨hA, hB⟩ := viewShowsNode_sampleStore
  refine ⟨hr, history_sampleStore.shows_exactly hr, hA, hB, ?_, ?_⟩
  · obtain ⟨i, hi⟩ := containsEdge_iff_edgeSlot?.mp ((hrecorded.mem_iff loopA).mp (by decide))
    refine (hs.viewShowsEdge_iff hr hi).mpr ⟨?_, hA, hA⟩
    rw [(contains_sampleRecord i).2, decide_eq_true_iff]
    exact hs.mem_edgeSlots_of_edgeSlot? hi
  · obtain ⟨i, hi⟩ := containsEdge_iff_edgeSlot?.mp ((hrecorded.mem_iff edgeAB).mp (by decide))
    rw [viewShowsEdge_eq hr hi, Except.ok.injEq, ← Bool.not_eq_true]
    intro hshown
    have hends := (hs.viewShowsEdge_iff hr hi).mp (by rw [viewShowsEdge_eq hr hi, hshown])
    rw [show edgeAB.target = nodeB from rfl, hB] at hends
    cases hends.2.2

end Session

end PropertyGraph

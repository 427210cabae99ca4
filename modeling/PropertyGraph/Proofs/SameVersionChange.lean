import PropertyGraph.Proofs.ViewClosure

/-!
# Changes that a view does not count

An observer of a view compares versions, so a call that changes what the view shows has to change
the version. There is one way in which it does not. Removing a node makes roots of its children in
the groups of every view, and what the groups hide is not counted there; so if the node is no member
of the view, and it or something above it was collapsed, members below it come to be shown without a
trace. Every other change is counted.
-/

namespace PropertyGraph.Session

open PropertyGraph.Action

variable {s s' : Session} {edges : List Edge} {order : List Nat} {view : View} {r r' : ViewRecord}
  {node : Node} {edge : Edge}

/-! ### What a view shows -/

def visibleNodes (s : Session) (view : View) : Set Node :=
  {node | ∃ nodes, s.viewNodes view = .ok nodes ∧ node ∈ nodes}

def visibleEdges (s : Session) (view : View) : Set Edge :=
  {edge | ∃ edges, s.viewEdges view = .ok edges ∧ edge ∈ edges}

theorem mem_visibleNodes (hs : s.Consistent order) (hr : s.viewRecord view = .ok r) :
    node ∈ s.visibleNodes view ↔ ∃ n, s.store.node? n = some node ∧ r.showsNode n = true := by
  have hnodes : s.viewNodes view =
      .ok ((s.store.nodes.slots.filter r.showsNode).filterMap s.store.node?) := by
    rw [viewNodes, hr]
    rfl
  rw [visibleNodes, Set.mem_ofPred_eq, hnodes]
  constructor
  · rintro ⟨nodes, heq, hmem⟩
    cases heq
    obtain ⟨n, hn, hnode⟩ := List.mem_filterMap.mp hmem
    exact ⟨n, hnode, (List.mem_filter.mp hn).2⟩
  · rintro ⟨n, hnode, hshown⟩
    refine ⟨_, rfl, List.mem_filterMap.mpr ⟨n, List.mem_filter.mpr ⟨?_, hshown⟩, hnode⟩⟩
    rw [hs.sound.mem_nodeSlots, hnode]
    rfl

theorem mem_visibleEdges (hs : s.Consistent order) (hr : s.viewRecord view = .ok r) :
    edge ∈ s.visibleEdges view ↔ ∃ i x, s.store.fixed? i = some x ∧ x.1 = edge ∧
      r.showsEdge i (x.2.1.get .outgoing) (x.2.1.get .incoming) = true := by
  have hedges : s.viewEdges view =
      .ok ((s.store.edges.slots.filter (s.recordShowsEdge r)).filterMap s.store.edge?) := by
    rw [viewEdges, hr]
    rfl
  rw [visibleEdges, Set.mem_ofPred_eq, hedges]
  constructor
  · rintro ⟨edges, heq, hmem⟩
    cases heq
    obtain ⟨i, hi, hedge⟩ := List.mem_filterMap.mp hmem
    obtain ⟨e, he, rfl⟩ := Option.map_eq_some_iff.mp hedge
    have hshown := (List.mem_filter.mp hi).2
    rw [recordShowsEdge, he, Option.any_some] at hshown
    exact ⟨i, e.fixed, by rw [Store.fixed?, he, Option.map_some], rfl, hshown⟩
  · rintro ⟨i, x, hx, rfl, hshown⟩
    obtain ⟨e, he, rfl⟩ := Option.map_eq_some_iff.mp hx
    refine ⟨_, rfl, List.mem_filterMap.mpr ⟨i, List.mem_filter.mpr ⟨?_, ?_⟩, ?_⟩⟩
    · rw [hs.sound.mem_edgeSlots, hx]
      rfl
    · rwa [recordShowsEdge, he, Option.any_some]
    · exact Store.edge?_eq_some he

theorem versionOf_of_viewRecord (hr : s.viewRecord view = .ok r) :
    s.versionOf (some view) = .ok r.version := by
  rw [versionOf, hr]
  rfl

theorem visible_eq (hs : s.Consistent order) {order' : List Nat} (hs' : s'.Consistent order')
    (hr : s.viewRecord view = .ok r) (hr' : s'.viewRecord view = .ok r')
    (hnodes : r'.nodes = r.nodes) (hedges : r'.edges = r.edges)
    (hhides : ∀ n, r.nodes.contains n = true → r'.hides n = r.hides n)
    (hnode : ∀ n, r.nodes.contains n = true → s'.store.node? n = s.store.node? n)
    (hfixed : ∀ i, r.edges.contains i = true → s'.store.fixed? i = s.store.fixed? i) :
    s'.visibleNodes view = s.visibleNodes view ∧ s'.visibleEdges view = s.visibleEdges view := by
  have hclosed := hs.closed _ r (get?_of_viewRecord hr)
  constructor
  · ext node
    rw [mem_visibleNodes hs' hr', mem_visibleNodes hs hr]
    refine exists_congr fun n => ?_
    rw [ViewRecord.showsNode, ViewRecord.showsNode, hnodes]
    cases hmember : r.nodes.contains n with
    | false => simp
    | true => rw [hhides n hmember, hnode n hmember]
  · ext edge
    rw [mem_visibleEdges hs' hr', mem_visibleEdges hs hr]
    refine exists_congr fun i => exists_congr fun x => ?_
    rw [ViewRecord.showsEdge, ViewRecord.showsEdge, hedges]
    cases hmember : r.edges.contains i with
    | false => simp
    | true =>
      rw [hfixed i hmember]
      refine and_congr_right fun hx => ?_
      obtain ⟨y, hy, hends⟩ := hclosed.edge_live i hmember
      rw [hx, Option.some.injEq] at hy
      subst hy
      rw [hhides _ (hends .outgoing), hhides _ (hends .incoming)]

/-! ### When a change is not counted -/

/-- Between two sessions a view comes to show other nodes or edges without its version telling. -/
def ChangesAtSameVersion (s s' : Session) (view : View) : Prop :=
  s'.versionOf (some view) = s.versionOf (some view) ∧
    (s'.visibleNodes view ≠ s.visibleNodes view ∨ s'.visibleEdges view ≠ s.visibleEdges view)

/-- Between two sessions no member of a view left the store, but above a hidden member a node left,
and below that node nothing above the member was collapsed. -/
structure UnhidesMember (s s' : Session) (r : ViewRecord) : Prop where
  nodes_stay : ∀ n, r.nodes.contains n = true → s.nodeLeft s' n = false
  edges_stay : ∀ i, r.edges.contains i = true → s.edgeLeft s' i = false
  exists_uncovered : ∃ f m, r.groups = some f ∧ r.nodes.contains m = true ∧ f.isHidden m = true ∧
    ((f.ancestors m).takeWhile fun x => !s.nodeLeft s' x).any f.isCollapsed = false

theorem not_unhidesMember (h : ∀ n, s.nodeLeft s' n = false) : ¬ s.UnhidesMember s' r := by
  rintro ⟨_, _, f, m, _, _, hhidden, huncovered⟩
  have hall : ((f.ancestors m).takeWhile fun x => !s.nodeLeft s' x) = f.ancestors m :=
    List.takeWhile_eq_self_iff.mpr fun x _ => by rw [h x]; rfl
  rw [hall, ← GroupForest.isHidden, hhidden] at huncovered
  cases huncovered

theorem sameVersion_iff_of_counted (hr : s.viewRecord view = .ok r)
    (hr' : s'.viewRecord view = .ok r') (hstay : ∀ n, s.nodeLeft s' n = false)
    (hcounted : r'.version = r.version →
      s'.visibleNodes view = s.visibleNodes view ∧ s'.visibleEdges view = s.visibleEdges view) :
    s.ChangesAtSameVersion s' view ↔ s.UnhidesMember s' r := by
  constructor
  · rintro ⟨hversion, hchange⟩
    rw [versionOf_of_viewRecord hr, versionOf_of_viewRecord hr', Except.ok.injEq] at hversion
    obtain ⟨hnodes, hedges⟩ := hcounted hversion
    exact hchange.elim (absurd hnodes) (absurd hedges)
  · exact fun h => absurd h (not_unhidesMember hstay)

theorem Gains.sameVersion_iff {came : List Edge} (h : Gains s s' came) (hs : s.Consistent order)
    (hr : s.viewRecord view = .ok r) (hr' : s'.viewRecord view = .ok r') :
    s.ChangesAtSameVersion s' view ↔ s.UnhidesMember s' r := by
  obtain ⟨hviews, hnode, hedge, fresh, hs', _⟩ := h order hs
  have hsame : r' = r := by
    have hget := get?_of_viewRecord hr'
    rw [hviews, get?_of_viewRecord hr, Option.some.injEq] at hget
    exact hget.symm
  have hclosed := hs.closed _ r (get?_of_viewRecord hr)
  refine sameVersion_iff_of_counted hr hr' (fun n => ?_) fun _ => ?_
  · rw [nodeLeft]
    cases hn : s.store.node? n with
    | none => rfl
    | some node => rw [hnode n node hn]; rfl
  · refine visible_eq hs hs' hr hr' (by rw [hsame]) (by rw [hsame]) (fun n _ => by rw [hsame])
      (fun n hn => ?_) fun i hi => ?_
    · obtain ⟨node, hlive⟩ := Option.isSome_iff_exists.mp (hclosed.node_live n hn)
      rw [hlive, hnode n node hlive]
    · obtain ⟨x, hx, _⟩ := hclosed.edge_live i hi
      rw [hx, hedge i x hx]

theorem Edits.sameVersion_iff (h : Edits s s') (hs : s.Consistent order)
    (hr : s.viewRecord view = .ok r) (hr' : s'.viewRecord view = .ok r') :
    s.ChangesAtSameVersion s' view ↔ s.UnhidesMember s' r := by
  obtain ⟨hnode, hfixed, hedit, hs'⟩ := h order hs
  have hget := get?_of_viewRecord hr
  refine sameVersion_iff_of_counted hr hr' (fun n => ?_) fun hversion => ?_
  · rw [nodeLeft, hnode]
    cases s.store.node? n <;> rfl
  · obtain ⟨hnodes, hedges, hgroups⟩ := (hedit _ r r' hget (get?_of_viewRecord hr')).counted
      (hs.closed _ r hget) hversion
    refine visible_eq hs hs' hr hr' hnodes hedges (fun n _ => ?_) (fun n _ => hnode n)
      fun i _ => hfixed i
    rw [ViewRecord.hides, hgroups, ViewRecord.hides]

theorem hides_eq_of_not_unhidesMember {n : Nat}
    (hshrunk : ViewRecord.Shrunk (s.nodeLeft s') (s.edgeLeft s') r r')
    (hnodes : ∀ n, r.nodes.contains n = true → s.nodeLeft s' n = false)
    (hedges : ∀ i, r.edges.contains i = true → s.edgeLeft s' i = false)
    (hcovered : ¬ s.UnhidesMember s' r) (hn : r.nodes.contains n = true) : r'.hides n = r.hides n := by
  rw [hshrunk.hides_eq (hnodes n hn), ViewRecord.hides]
  cases hf : r.groups with
  | none => rfl
  | some f =>
    rw [Option.any_some, Option.any_some]
    cases hhidden : f.isHidden n with
    | true =>
      by_contra huncovered
      exact hcovered ⟨hnodes, hedges, f, n, hf, hn, hhidden, Bool.eq_false_of_not_eq_true huncovered⟩
    | false =>
      rw [GroupForest.isHidden, List.any_eq_false] at hhidden
      exact List.any_eq_false.mpr fun x hx => hhidden x (List.takeWhile_subset _ hx)

theorem Loses.sameVersion_iff (h : Loses s s') (hs : s.Consistent order)
    (hr : s.viewRecord view = .ok r) (hr' : s'.viewRecord view = .ok r') :
    s.ChangesAtSameVersion s' view ↔ s.UnhidesMember s' r := by
  obtain ⟨hnode, hedge, hrecord, order', _, hs'⟩ := h order hs
  have hget := get?_of_viewRecord hr
  have hclosed := hs.closed _ r hget
  have hshrunk : ViewRecord.Shrunk (s.nodeLeft s') (s.edgeLeft s') r r' := by
    obtain ⟨x, hx, hshrunk⟩ := hrecord _ r' (get?_of_viewRecord hr')
    rw [hget, Option.some.injEq] at hx
    rwa [hx]
  have hversion : s'.versionOf (some view) = s.versionOf (some view) ↔
      (∀ n, r.nodes.contains n = true → s.nodeLeft s' n = false) ∧
        ∀ i, r.edges.contains i = true → s.edgeLeft s' i = false := by
    rw [versionOf_of_viewRecord hr, versionOf_of_viewRecord hr', Except.ok.injEq]
    exact hshrunk.version_eq_iff (hclosed.size_nodes_lt hs.sound.nodes_valid)
      (hclosed.size_edges_lt hs.sound.edges_valid)
  have hnode' : ∀ n, r.nodes.contains n = true → s.nodeLeft s' n = false →
      s'.store.node? n = s.store.node? n :=
    fun n hn hstays => eq_of_not_left (hnode n) (hclosed.node_live n hn) hstays
  have hedge' : ∀ i, r.edges.contains i = true → s.edgeLeft s' i = false →
      s'.store.fixed? i = s.store.fixed? i := by
    intro i hi hstays
    obtain ⟨y, hy, _⟩ := hclosed.edge_live i hi
    exact eq_of_not_left (hedge i) (Option.isSome_iff_exists.mpr ⟨y, hy⟩) hstays
  constructor
  · rintro ⟨hsame, hchange⟩
    obtain ⟨hnodes, hedges⟩ := hversion.mp hsame
    by_contra hcovered
    obtain ⟨hnodes', hedges'⟩ := hshrunk.members_eq hnodes hedges
    obtain ⟨hvisible, hvisible'⟩ := visible_eq hs hs' hr hr' hnodes' hedges'
      (fun n hn => hides_eq_of_not_unhidesMember hshrunk hnodes hedges hcovered hn)
      (fun n hn => hnode' n hn (hnodes n hn)) fun i hi => hedge' i hi (hedges i hi)
    exact hchange.elim (absurd hvisible) (absurd hvisible')
  · rintro ⟨hnodes, hedges, f, m, hf, hm, hhidden, huncovered⟩
    refine ⟨hversion.mpr ⟨hnodes, hedges⟩, .inl fun heq => ?_⟩
    obtain ⟨node, hlive⟩ := Option.isSome_iff_exists.mp (hclosed.node_live m hm)
    have hshown : node ∈ s'.visibleNodes view := by
      refine (mem_visibleNodes hs' hr').mpr ⟨m, (hnode' m hm (hnodes m hm)).trans hlive, ?_⟩
      rw [ViewRecord.showsNode, hshrunk.contains_nodes, hm, hnodes m hm,
        hshrunk.hides_eq (hnodes m hm), hf, Option.any_some, huncovered]
      rfl
    rw [heq] at hshown
    obtain ⟨n, hn, hshown⟩ := (mem_visibleNodes hs hr).mp hshown
    rw [hs.node_unique hn hlive, ViewRecord.showsNode, ViewRecord.hides, hf, Option.any_some,
      hhidden, Bool.not_true, Bool.and_false] at hshown
    cases hshown

/-- A call changes what a view shows without changing its version exactly if it uncovers a
member. -/
theorem History.changesAtSameVersion_iff (h : History s edges) (command : Command)
    (hr : s.viewRecord view = .ok r) (hr' : (command.perform s).viewRecord view = .ok r') :
    s.ChangesAtSameVersion (command.perform s) view ↔ s.UnhidesMember (command.perform s) r := by
  obtain ⟨order, hs, _⟩ := h.recorded
  rcases perform_cases hs command with hgains | hloses | hedits
  · exact hgains.sameVersion_iff hs hr hr'
  · exact hloses.sameVersion_iff hs hr hr'
  · exact hedits.sameVersion_iff hs hr hr'

/-! ### A node comes to be shown

In the example the node that stands for the collapsed group is removed. It is no member of the view,
so nothing is counted, but the node in the group is hidden no more. -/

def uncoveredRecord : ViewRecord := collapsedRecord.forgetNode 0

def withoutA : Session := (Command.removeNode nodeA).perform (withView collapsedRecord)

theorem isHidden_remove_nodeA : (collapsedAB.remove 0).isHidden 1 = false := by
  simp [GroupForest.isHidden, GroupForest.ancestors, GroupForest.parent?, GroupForest.isCollapsed,
    GroupForest.remove, GroupForest.detach, collapsedAB, groupAB]

theorem withoutA_eq : ∃ event, withoutA =
    (((withView collapsedRecord).forgetNode 0 nodeA).bumpIf true false).tell event := by
  obtain ⟨order, hs, _⟩ := history_collapsedRecord.recorded
  have hnode : (withView collapsedRecord).store.node? 0 = some nodeA := rfl
  exact ⟨_, congrArg Prod.snd (removeNode_of_bare hs hnode rfl)⟩

theorem viewRecord_withoutA : withoutA.viewRecord exampleView = .ok uncoveredRecord := by
  obtain ⟨event, heq⟩ := withoutA_eq
  have hget : ((withView collapsedRecord).store.views.arena.map (·.forgetNode 0)).get? 0 =
      some uncoveredRecord := by
    rw [Arena.get?_map]
    rfl
  rw [heq]
  exact viewRecord_of_live rfl Std.HashSet.contains_empty hget

theorem viewNodes_exampleView :
    (withView collapsedRecord).viewNodes exampleView = .ok [] ∧
    withoutA.viewNodes exampleView = .ok [nodeB] := by
  constructor
  · have hA : collapsedRecord.showsNode 0 = false := rfl
    have hB : collapsedRecord.showsNode 1 = false := by
      change (true && !collapsedAB.isHidden 1) = false
      rw [isHidden_collapsedAB.2]
      rfl
    have hshown : [0, 1].filter collapsedRecord.showsNode = [] := by simp [hA, hB]
    rw [viewNodes, viewRecord_withView]
    change Except.ok (([0, 1].filter collapsedRecord.showsNode).filterMap _) = _
    rw [hshown]
    rfl
  · obtain ⟨event, heq⟩ := withoutA_eq
    have hslots : withoutA.store.nodes.slots = [1] := by
      rw [heq]
      rfl
    have hnode : withoutA.store.node? 1 = some nodeB := by
      rw [heq]
      rfl
    have hB : uncoveredRecord.showsNode 1 = true := by
      change (true && !(collapsedAB.remove 0).isHidden 1) = true
      rw [isHidden_remove_nodeA]
      rfl
    rw [viewNodes, viewRecord_withoutA]
    change Except.ok ((withoutA.store.nodes.slots.filter uncoveredRecord.showsNode).filterMap _) = _
    rw [hslots, List.filter_cons_of_pos hB, List.filter_nil, List.filterMap_cons_some hnode,
      List.filterMap_nil]

theorem versionOf_exampleView :
    (withView collapsedRecord).versionOf (some exampleView) = .ok { node := 3, edge := 2 } ∧
      withoutA.versionOf (some exampleView) = .ok { node := 3, edge := 2 } := by
  rw [versionOf_of_viewRecord (viewRecord_withView collapsedRecord),
    versionOf_of_viewRecord viewRecord_withoutA]
  exact ⟨rfl, rfl⟩

/-- So the removal changes what the view shows, from nothing to the second node, and the version of
the view is what it was. -/
theorem removeNode_nodeA_sameVersion :
    History (withView collapsedRecord) [] ∧ exampleView.hierarchical = true ∧
      withoutA = (Command.removeNode nodeA).perform (withView collapsedRecord) ∧
      (withView collapsedRecord).viewNodes exampleView = .ok [] ∧
      withoutA.viewNodes exampleView = .ok [nodeB] ∧
      (withView collapsedRecord).versionOf (some exampleView) = .ok { node := 3, edge := 2 } ∧
      withoutA.versionOf (some exampleView) = .ok { node := 3, edge := 2 } :=
  ⟨history_collapsedRecord, rfl, rfl, viewNodes_exampleView.1, viewNodes_exampleView.2,
    versionOf_exampleView.1, versionOf_exampleView.2⟩

theorem unhidesMember_withoutA :
    (withView collapsedRecord).viewRecord exampleView = .ok collapsedRecord ∧
    withoutA.viewRecord exampleView = .ok uncoveredRecord ∧
      (withView collapsedRecord).ChangesAtSameVersion withoutA exampleView ∧
      (withView collapsedRecord).UnhidesMember withoutA collapsedRecord := by
  have hsilent : (withView collapsedRecord).ChangesAtSameVersion withoutA exampleView := by
    refine ⟨versionOf_exampleView.2.trans versionOf_exampleView.1.symm, .inl fun heq => ?_⟩
    have hshown : nodeB ∈ withoutA.visibleNodes exampleView :=
      ⟨[nodeB], viewNodes_exampleView.2, List.mem_singleton_self nodeB⟩
    rw [heq] at hshown
    obtain ⟨nodes, hnodes, hmem⟩ := hshown
    rw [viewNodes_exampleView.1] at hnodes
    cases hnodes
    cases hmem
  exact ⟨viewRecord_withView collapsedRecord, viewRecord_withoutA, hsilent,
    (history_collapsedRecord.changesAtSameVersion_iff (.removeNode nodeA)
      (viewRecord_withView collapsedRecord)
      viewRecord_withoutA).mp hsilent⟩

end PropertyGraph.Session

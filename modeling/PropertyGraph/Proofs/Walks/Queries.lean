import PropertyGraph.Proofs.Walks.Around
import PropertyGraph.Proofs.Walks.Through

/-!
# What queries list

The listing of a query can be read off the session of its graph: all nodes or edges in the order of their
slots, those of them that a view shows, or the edges around a node in the order of the walk. That is what
the query answers when it lists everything at once, and what the iterator comes to that it opens.
-/

namespace PropertyGraph

open Session

def Query.listing (s : Session) : Query → Except Fault (List Item)
  | nodes => .ok (s.store.nodes.nodes.map .node)
  | nodesThrough view => return (← s.viewNodes view).map .node
  | edges folded => .ok ((s.edgesInOrder folded).map (.edge · (some .outgoing)))
  | edgesThrough view => return (← s.viewEdges view).map (.edge · (some .outgoing))
  | around node direction label folded =>
    return (← s.adjacency node direction label folded).map fun x => .edge x.2 (some x.1)
  | aroundThrough view node direction => do
    let record ← s.viewRecord view
    let walk ← s.adjacency node direction none false
    let shown := walk.filter fun x => (s.catalog.edgeSlot? x.2).any (s.recordShowsEdge record)
    return shown.map fun x => .edge x.2 (some x.1)

namespace Session

variable {s : Session} {order : List Nat} {g : Graph} {space space' : GraphSpace} {it : Iterator}
  {view : View} {node : Node} {direction : Direction}

theorem Consistent.nodesShown_eq_nodes (hs : s.Consistent order) :
    s.nodesShown (fun _ => true) 0 = s.store.nodes.nodes := by
  rw [nodesShown_zero, List.filter_true, NodeTable.slots, NodeTable.nodes, Arena.values,
    List.filterMap_map, List.map_map, ← List.filterMap_eq_map]
  refine List.filterMap_congr fun x hx => ?_
  exact Store.node?_eq_some (hs.sound.nodes_valid.toLaid.mem_toList.mp hx)

theorem Consistent.lists_aroundThrough (hs : s.Consistent order) (hspace : space.session? g = some s)
    (hopened : (Query.aroundThrough view node direction).iterator g space = (.ok it, space')) :
    ∃ listing, (Query.aroundThrough view node direction).listing s = .ok listing ∧
      it.Lists space' listing := by
  obtain ⟨start, hstart, rfl⟩ := GraphSpace.exists_of_map hopened
  obtain ⟨guard, r, n, htake, rfl, hr, hresolve⟩ :=
    EdgeIterator.exists_of_startAroundThrough hspace hstart
  have hslot := hs.nodeSlot?_eq (node?_of_resolveNode hresolve)
  have hlists := hs.lists_of_around
    { guard, cursor := .adjacent (.around s.store n direction none false), filter := some view }
    hslot (GraphSpace.session?_of_take hspace htake) (EdgeIterator.shows?_of_viewRecord hr rfl) rfl
  rw [filter_shows_false, ← hs.filter_filterMap_edgeAlong] at hlists
  refine ⟨_, ?_, hlists⟩
  rw [Query.listing, hr, ok_bind, hs.adjacency_eq hslot, filter_shows_false]
  rfl

end Session

namespace Query

variable {s : Session} {order : List Nat} {g : Graph} {space space' : GraphSpace} {it : Iterator}
  {q : Query}

theorem exists_listing_of_iterator (hs : s.Consistent order) (hspace : space.session? g = some s)
    (hopened : q.iterator g space = (.ok it, space')) :
    ∃ listing, q.listing s = .ok listing ∧ it.Lists space' listing := by
  cases q with
  | nodes =>
    obtain ⟨start, hstart, rfl⟩ := GraphSpace.exists_of_map hopened
    obtain ⟨guard, htake, rfl⟩ := NodeIterator.exists_of_start hstart
    have hlists : (Iterator.nodes { guard }).Lists space' _ :=
      NodeIterator.lists_of_shows hs.sound.nodes_valid (NodeIterator.shows?_of_none rfl)
        (GraphSpace.session?_of_take hspace htake)
    rw [hs.nodesShown_eq_nodes] at hlists
    exact ⟨_, rfl, hlists⟩
  | nodesThrough view =>
    obtain ⟨start, hstart, rfl⟩ := GraphSpace.exists_of_map hopened
    obtain ⟨guard, r, htake, rfl, hr⟩ := NodeIterator.exists_of_startThrough hspace hstart
    refine ⟨_, ?_, NodeIterator.lists_of_shows hs.sound.nodes_valid
      (NodeIterator.shows?_of_viewRecord hr rfl) (GraphSpace.session?_of_take hspace htake)⟩
    rw [listing, viewNodes, hr, nodesShown_zero]
    rfl
  | edges folded => exact ⟨_, rfl, hs.lists_edges folded hspace hopened⟩
  | edgesThrough view =>
    obtain ⟨start, hstart, rfl⟩ := GraphSpace.exists_of_map hopened
    obtain ⟨guard, r, htake, rfl, hr⟩ := EdgeIterator.exists_of_startThrough hspace hstart
    refine ⟨_, ?_, EdgeIterator.lists_through hs.sound hr rfl rfl
      (GraphSpace.session?_of_take hspace htake)⟩
    rw [listing, viewEdges, hr, edgesShown_zero]
    rfl
  | around node direction label folded =>
    obtain ⟨start, hstart, _⟩ := GraphSpace.exists_of_map hopened
    obtain ⟨_, n, _, _, hresolve⟩ := EdgeIterator.exists_of_startAround hspace hstart
    have hslot := hs.nodeSlot?_eq (node?_of_resolveNode hresolve)
    refine ⟨_, ?_, hs.lists_around hslot hspace hopened⟩
    rw [listing, hs.adjacency_eq hslot]
    rfl
  | aroundThrough view node direction => exact hs.lists_aroundThrough hspace hopened

/-- The iterator that a query opens comes to the listing of the query, which is also what the query
answers when it lists everything at once. -/
theorem lists_of_iterator (hs : s.Consistent order) (hspace : space.session? g = some s)
    (hopened : q.iterator g space = (.ok it, space')) :
    ∃ listing, q.listing s = .ok listing ∧ (q.list g space).1 = .ok listing ∧
      it.Lists space' listing := by
  obtain ⟨listing, hlisting, hlists⟩ := exists_listing_of_iterator hs hspace hopened
  obtain ⟨listing', hlist, hlists'⟩ := exists_list hspace hs.sound hopened
  obtain rfl := hlists.unique hlists'
  exact ⟨listing, hlisting, hlist, hlists⟩

end Query

end PropertyGraph

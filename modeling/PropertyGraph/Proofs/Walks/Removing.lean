import PropertyGraph.Proofs.Binding
import PropertyGraph.Proofs.Graph.Writing
import PropertyGraph.Proofs.Walks.AfterRemoval

/-!
# Removing on a walk

An iterator can remove what came last. By then it has moved on, past the slot that is freed, and what
it has ahead of it stays as it was: a walk over all nodes or edges looks at higher slots only, and a
walk around a node keeps the rest of its chain, whose links are not its own to lose. A loop that is
removed where it goes out does not come in again.
-/

namespace PropertyGraph

/-! ### What an iterator has ahead of it -/

open GraphSpace Session

namespace NodeIterator

variable {it : NodeIterator} {s : Session} {space : GraphSpace} {node : Node}

theorem seek_cases_of_whole (h : s.store.nodes.arena.Valid) (hfilter : it.filter = none) :
    (it.seek s = (none, it) ∧ s.store.nodesFrom it.position = []) ∨
    ∃ slot node, s.store.node? slot = some node ∧
      it.seek s = (some node, { it with position := slot + 1, current := some node }) ∧
      s.store.nodesFrom it.position = node :: s.store.nodesFrom (slot + 1) := by
  cases hlive : s.store.nodes.arena.nextLive? it.position with
  | none =>
    have hover : s.store.nodes.slots.filter (it.position ≤ ·) = [] :=
      h.toLaid.slots_from_eq_nil hlive
    exact .inl ⟨seek_of_nextLive?_eq_none hlive, by rw [Store.nodesFrom, hover, List.filterMap_nil]⟩
  | some slot =>
    obtain ⟨N, hN⟩ := Option.isSome_iff_exists.mp (Arena.nextLive?_eq_some_iff.mp hlive).2.1
    have hnode : s.store.node? slot = some N.node := by rw [Store.node?, NodeTable.get?, hN]; rfl
    have hfirst : s.store.nodes.slots.filter (it.position ≤ ·) =
        slot :: s.store.nodes.slots.filter (slot + 1 ≤ ·) := h.toLaid.slots_from_of_nextLive? hlive
    refine .inr ⟨slot, N.node, hnode, ?_, ?_⟩
    · rw [seek_of_nextLive? hlive, shows?, hfilter]
      simp only [hnode]
    · rw [Store.nodesFrom, hfirst, List.filterMap_cons_some hnode, Store.nodesFrom]

theorem remove_of_current (hfilter : it.filter = none) (hcurrent : it.current = some node)
    (hs : space.session? it.guard.graph = some s) (hwriter : space.IsWriter it.guard.graph) :
    it.remove space = (((removeNode node s).1, { it with current := none }),
      (it.guard.graph.run (removeNode node) space).2) := by
  rw [remove, hfilter, Option.isSome_none, if_neg Bool.false_ne_true, hwriter.checkWriter, hcurrent,
    ← run_fst hs]
  rfl

end NodeIterator

theorem EdgeIterator.remove_of_current {it : EdgeIterator} {edge : Edge} {s : Session}
    {space : GraphSpace} (hfilter : it.filter = none) (hcurrent : it.current = some edge)
    (hs : space.session? it.guard.graph = some s) (hwriter : space.IsWriter it.guard.graph) :
    it.remove space = (((removeEdge edge s).1, { it with current := none }),
      (it.guard.graph.run (removeEdge edge) space).2) := by
  rw [remove, hfilter, Option.isSome_none, if_neg Bool.false_ne_true, hwriter.checkWriter, hcurrent,
    ← run_fst hs]
  rfl

namespace Iterator

variable {s : Session} {order : List Nat} {it : Iterator} {item : Item} {listing rest : List Item}
  {space : GraphSpace}

/-- What an iterator through no view, whose walk is not folded, has ahead of it in a store. -/
inductive Upcoming (s : Session) (order : List Nat) : Iterator → List Item → Prop
  | nodes (it : NodeIterator) (hfilter : it.filter = none) :
    Upcoming s order (.nodes it) ((s.store.nodesFrom it.position).map .node)
  | edges (it : EdgeIterator) (position : Nat) (hfilter : it.filter = none)
    (hcursor : it.cursor = .arena position false) :
    Upcoming s order (.edges it) ((s.store.edgesFrom position).map (.edge · (some .outgoing)))
  | around (it : EdgeIterator) (c : AdjacencyCursor) (here : List Nat) (hfilter : it.filter = none)
    (hcursor : it.cursor = .adjacent c) (h : c.AlongFromStart s.store order here) :
    Upcoming s order (.edges it)
      ((c.toCome s.store order here).filterMap (EdgeIterator.itemAt s))
  | ended (it : EdgeIterator) (c : AdjacencyCursor) (hcursor : it.cursor = .adjacent c)
    (hdone : c.done = true) : Upcoming s order (.edges it) []

/-- An iterator has come to an item, which lies behind it, and has the rest ahead of it. -/
inductive JustYielded (s : Session) (order : List Nat) : Iterator → Item → List Item → Prop
  | node (it : NodeIterator) (slot : Nat) (node : Node) (hfilter : it.filter = none)
    (hcurrent : it.current = some node) (hnode : s.store.node? slot = some node)
    (hpast : slot < it.position) :
    JustYielded s order (.nodes it) (.node node) ((s.store.nodesFrom it.position).map .node)
  | edge (it : EdgeIterator) (slot position : Nat) (edge : Edge) (hfilter : it.filter = none)
    (hcurrent : it.current = some edge) (hedge : s.store.edge? slot = some edge)
    (hcursor : it.cursor = .arena position false) (hpast : slot < position) :
    JustYielded s order (.edges it) (.edge edge (some .outgoing))
      ((s.store.edgesFrom position).map (.edge · (some .outgoing)))
  | around (it : EdgeIterator) (c : AdjacencyCursor) (here : List Nat) (slot : Nat) (edge : Edge)
    (hfilter : it.filter = none) (hcurrent : it.current = some edge)
    (hedge : s.store.edge? slot = some edge) (hcursor : it.cursor = .adjacent c)
    (h : c.AlongFromStart s.store order here) (hpast : (c.phase, slot) :: c.toCome s.store order here <:+
      (AdjacencyCursor.start c.node c.direction c.label c.folded).toCome s.store order []) :
    JustYielded s order (.edges it) (.edge edge (some c.phase))
      ((c.toCome s.store order here).filterMap (EdgeIterator.itemAt s))

theorem JustYielded.upcoming (h : JustYielded s order it item rest) : Upcoming s order it rest := by
  cases h with
  | node it slot node hfilter => exact .nodes it hfilter
  | edge it slot position edge hfilter _ _ hcursor => exact .edges it position hfilter hcursor
  | around it c here slot edge hfilter _ _ hcursor h => exact .around it c here hfilter hcursor h

theorem Upcoming.next_cases (h : Upcoming s order it listing) (hs : s.Consistent order)
    (hsession : space.session? it.guard.graph = some s) :
    (∃ it', listing = [] ∧ it.next space = (none, it') ∧ it'.next space = (none, it')) ∨
    ∃ item rest it', listing = item :: rest ∧ it.next space = (some item, it') ∧
      it'.guard = it.guard ∧ JustYielded s order it' item rest := by
  cases h with
  | nodes it hfilter =>
    rw [next_nodes, NodeIterator.next_of_session? hsession]
    rcases NodeIterator.seek_cases_of_whole hs.sound.nodes_valid hfilter with
      ⟨hseek, hnil⟩ | ⟨slot, node, hnode, hseek, hcons⟩
    · rw [hseek, hnil]
      refine .inl ⟨.nodes it, rfl, rfl, ?_⟩
      rw [next_nodes, NodeIterator.next_of_session? hsession, hseek]
      rfl
    · rw [hseek, hcons]
      exact .inr ⟨_, _, _, rfl, rfl, rfl,
        .node _ slot node hfilter rfl hnode (Nat.lt_succ_self slot)⟩
  | edges it position hfilter hcursor =>
    rw [EdgeIterator.next_edges_of_seek it hsession, ← Store.filterMap_shownFrom_false]
    rcases EdgeIterator.seek_cases_of_arena hs.sound.edges_valid hfilter hcursor with
      ⟨stop, hseek, hstays, hnil⟩ | ⟨slot, edge, hedge, hseek, _, hcons⟩
    · have hstill := EdgeIterator.next_edges_of_seek
        { it with cursor := .arena stop false } hsession
      rw [hstays] at hstill
      rw [hseek, hnil]
      exact .inl ⟨_, rfl, rfl, hstill⟩
    · rw [hseek, hcons, List.filterMap_cons_some hedge, Store.filterMap_shownFrom_false]
      exact .inr ⟨_, _, _, rfl, rfl, rfl,
        .edge _ slot (slot + 1) edge hfilter rfl hedge rfl (Nat.lt_succ_self slot)⟩
  | around it c here hfilter hcursor h =>
    rw [EdgeIterator.next_edges_of_seek it hsession]
    rcases EdgeIterator.seek_cases_of_adjacent hs.sound hfilter hcursor h.toAlong
        (h.length_lt hs.sound) with
      ⟨c', hseek, hdone, hnil⟩ | ⟨slot, edge, c', here', hedge, hseek, h', hsame, hsuffix, hcons⟩
    · have hstill := EdgeIterator.next_edges_of_seek { it with cursor := .adjacent c' } hsession
      rw [EdgeIterator.seek_of_done rfl hdone] at hstill
      rw [h.shown_eq] at hnil
      rw [hseek, hnil]
      exact .inl ⟨_, rfl, rfl, hstill⟩
    · have hpast := hsuffix.trans h.suffix
      rw [← hsame.node, ← hsame.direction, ← hsame.label, ← hsame.folded] at hpast
      have hfromStart : c'.AlongFromStart s.store order here' :=
        ⟨h', hsame.folded.trans h.plain, (List.suffix_cons _ _).trans hpast⟩
      rw [h.shown_eq, hfromStart.shown_eq] at hcons
      rw [hseek, hcons, List.filterMap_cons_some (EdgeIterator.itemAt_of_edge? hedge c'.phase)]
      exact .inr ⟨_, _, _, rfl, rfl, rfl,
        .around _ c' here' slot edge hfilter rfl hedge rfl hfromStart hpast⟩
  | ended it c hcursor hdone =>
    have hover : (Iterator.edges it).next space = (none, .edges it) := by
      rw [EdgeIterator.next_edges_of_seek it hsession, EdgeIterator.seek_of_done hcursor hdone]
      rfl
    exact .inl ⟨_, rfl, hover, hover⟩

theorem Upcoming.lists (h : Upcoming s order it listing) (hs : s.Consistent order)
    (hsession : space.session? it.guard.graph = some s) : it.Lists space listing := by
  induction listing generalizing it with
  | nil =>
    rcases h.next_cases hs hsession with ⟨it', _, hnone, hend⟩ | ⟨_, _, _, hcons, _⟩
    · exact lists_nil hnone hend
    · cases hcons
  | cons item rest ih =>
    rcases h.next_cases hs hsession with ⟨_, hnil, _⟩ | ⟨_, _, it', hcons, hnext, hguard, hyielded⟩
    · cases hnil
    · cases hcons
      exact .cons hnext (ih hyielded.upcoming (hguard ▸ hsession))

theorem remove_edges_of_current {it : EdgeIterator} {slot : Nat} {edge : Edge}
    (hs : s.Consistent order) (hfilter : it.filter = none) (hcurrent : it.current = some edge)
    (hedge : s.store.edge? slot = some edge) (hsession : space.session? it.guard.graph = some s)
    (hwriter : space.IsWriter it.guard.graph) :
    (Iterator.edges it).remove space = ((.ok true, .edges { it with current := none }),
      (it.guard.graph.run (removeEdge edge) space).2) := by
  rw [remove_edges, EdgeIterator.remove_of_current hfilter hcurrent hsession hwriter,
    removeEdge_of_stored hs hedge]

theorem JustYielded.remove (h : JustYielded s order it item rest) (hs : s.Consistent order)
    (hsession : space.session? it.guard.graph = some s) (hwriter : space.IsWriter it.guard.graph) :
    ∃ it' space' s' order', it.remove space = ((.ok true, it'), space') ∧ it'.guard = it.guard ∧
      space'.session? it.guard.graph = some s' ∧ space'.IsWriter it.guard.graph ∧
      s'.Consistent order' ∧ RemovesItems [item] s s' ∧
      Upcoming s' order' it' (rest.filter (!·.isReturnOf item)) := by
  cases h with
  | node it slot node hfilter hcurrent hnode hpast =>
    obtain ⟨hdone, ⟨order', hs'⟩, hremoves⟩ := hs.removesItems_removeNode hnode
    have hrest : ((s.store.nodesFrom it.position).map Item.node).filter
        (!·.isReturnOf (.node node)) = (s.store.nodesFrom it.position).map .node :=
      List.filter_eq_self.mpr fun _ _ => rfl
    refine ⟨.nodes { it with current := none }, _, _, order', ?_, rfl,
      session?_run hsession (removeNode node), hwriter.run _, hs', hremoves, ?_⟩
    · rw [remove_nodes, NodeIterator.remove_of_current hfilter hcurrent hsession hwriter, hdone]
      rfl
    · rw [hrest, ← hs.nodesFrom_removeNode hnode hpast]
      exact .nodes _ hfilter
  | edge it slot position edge hfilter hcurrent hedge hcursor hpast =>
    -- Over all edges every edge comes going out, also a loop: there is no return to lose.
    have hrest : ((s.store.edgesFrom position).map (Item.edge · (some .outgoing))).filter
        (!·.isReturnOf (.edge edge (some .outgoing))) =
          (s.store.edgesFrom position).map (.edge · (some .outgoing)) := by
      refine List.filter_eq_self.mpr fun item hitem => ?_
      obtain ⟨other, _, rfl⟩ := List.mem_map.mp hitem
      rw [Item.isReturnOf_of_outgoing]
      rfl
    refine ⟨_, _, _, order.erase slot,
      remove_edges_of_current hs hfilter hcurrent hedge hsession hwriter, rfl,
      session?_run hsession (removeEdge edge), hwriter.run _, (hs.lacksEdge_removeEdge hedge).2,
      hs.removesItems_removeEdge hedge _, ?_⟩
    rw [hrest, ← hs.edgesFrom_removeEdge hedge hpast]
    exact .edges _ position hfilter hcursor
  | around it c here slot edge hfilter hcurrent hedge hcursor h hpast =>
    obtain ⟨hlacks, hs'⟩ := hs.lacksEdge_removeEdge hedge
    obtain ⟨hbehind, hitems⟩ := hs.items_of_lacksEdge hedge hpast hlacks
    refine ⟨_, _, _, order.erase slot,
      remove_edges_of_current hs hfilter hcurrent hedge hsession hwriter, rfl,
      session?_run hsession (removeEdge edge), hwriter.run _, hs',
        hs.removesItems_removeEdge hedge _, ?_⟩
    rw [← hitems]
    exact .around _ c here hfilter hcursor (h.of_lacksEdge hlacks hs.sound.nodup hbehind)

/-! ### Removing along a walk -/

/-- Steps through a walk, and removes what comes where the choices say so: the items that came, each
with the answer of its removal if it was removed, and the iterator and the graphs at the end. -/
def removeAlong : List Bool → Iterator → GraphSpace →
    List (Item × Option (Except Fault Bool)) × Iterator × GraphSpace
  | [], it, space => ([], it, space)
  | chosen :: choices, it, space =>
    match it.next space with
    | (none, it) => ([], it, space)
    | (some item, it) =>
      if chosen then
        match it.remove space with
        | ((answer, it), space) =>
          let (came, left) := removeAlong choices it space
          ((item, some answer) :: came, left)
      else
        let (came, left) := removeAlong choices it space
        ((item, none) :: came, left)

end Iterator

/-- What comes of a listing when items are removed from it as the choices say, each with its choice,
and what is still to come. -/
def Item.pick : List Bool → List Item → List (Item × Bool) × List Item
  | chosen :: choices, item :: rest =>
    let rest := if chosen then rest.filter (!·.isReturnOf item) else rest
    ((item, chosen) :: (Item.pick choices rest).1, (Item.pick choices rest).2)
  | _, rest => ([], rest)

/-- How it ends when items are removed along a walk of a listing: the listing came, but for loops that were removed
and did not return; no removal was refused; the rest is still to come; and what was removed has gone, a
node with the edges at it, and nothing else. -/
structure Iterator.RemovedAlong (g : Graph) (s : Session) (listing : List Item) (choices : List Bool)
    (came : List (Item × Option (Except Fault Bool))) (it : Iterator) (space : GraphSpace) :
    Prop where
  came_eq : came = (Item.pick choices listing).1.map fun x =>
    (x.1, if x.2 then some (.ok true) else none)
  lists : it.Lists space (Item.pick choices listing).2
  exists_removesItems : ∃ s', space.session? g = some s' ∧
    RemovesItems (((Item.pick choices listing).1.filter (·.2)).map (·.1)) s s'

namespace Iterator

variable {s s' : Session} {order : List Nat} {it : Iterator} {item : Item} {listing rest : List Item}
  {space : GraphSpace} {g : Graph} {choices : List Bool}
  {came : List (Item × Option (Except Fault Bool))}

namespace RemovedAlong

theorem stopped (hnone : Item.pick choices listing = ([], listing)) (hlists : it.Lists space listing)
    (hs : space.session? g = some s) : RemovedAlong g s listing choices [] it space where
  came_eq := by rw [hnone, List.map_nil]
  lists := by rwa [hnone]
  exists_removesItems := ⟨s, hs, by rw [hnone]; exact .refl s⟩

theorem kept (h : RemovedAlong g s rest choices came it space) (item : Item) :
    RemovedAlong g s (item :: rest) (false :: choices) ((item, none) :: came) it space where
  came_eq := congrArg (List.cons _) h.came_eq
  lists := h.lists
  exists_removesItems := h.exists_removesItems

theorem removed (hremoves : RemovesItems [item] s s')
    (h : RemovedAlong g s' (rest.filter (!·.isReturnOf item)) choices came it space) :
    RemovedAlong g s (item :: rest) (true :: choices) ((item, some (.ok true)) :: came) it space where
  came_eq := congrArg (List.cons _) h.came_eq
  lists := h.lists
  exists_removesItems := by
    obtain ⟨s'', hs'', hrest⟩ := h.exists_removesItems
    exact ⟨s'', hs'', hremoves.trans hrest⟩

end RemovedAlong

theorem Upcoming.removedAlong (h : Upcoming s order it listing) (hs : s.Consistent order)
    (hsession : space.session? it.guard.graph = some s) (hwriter : space.IsWriter it.guard.graph)
    (choices : List Bool) :
    RemovedAlong it.guard.graph s listing choices (it.removeAlong choices space).1
      (it.removeAlong choices space).2.1 (it.removeAlong choices space).2.2 := by
  -- Each removal leaves a consistent session and an iterator with the rest of the listing ahead of it.
  induction choices generalizing it space s order listing with
  | nil => exact .stopped rfl (h.lists hs hsession) hsession
  | cons chosen choices ih =>
    rw [removeAlong]
    rcases h.next_cases hs hsession with
      ⟨it', rfl, hnone, hend⟩ | ⟨item, rest, it', rfl, hnext, hguard, hyielded⟩
    · rw [hnone]
      exact .stopped rfl (lists_nil hend hend) hsession
    · rw [hnext]
      rw [← hguard] at hsession hwriter ⊢
      cases chosen with
      | false => exact (ih hyielded.upcoming hs hsession hwriter).kept item
      | true =>
        obtain ⟨it'', space', s', order', hremove, hguard', hsession', hwriter', hs',
          hremoves, hupcoming⟩ :=
          hyielded.remove hs hsession hwriter
        simp only [hremove, if_true]
        rw [← hguard'] at hsession' hwriter' ⊢
        exact .removed hremoves (ih hupcoming hs' hsession' hwriter')

end Iterator

def Query.isPlain : Query → Bool
  | nodes => true
  | edges folded => !folded
  | around _ _ _ folded => !folded
  | nodesThrough _ | edgesThrough _ | aroundThrough .. => false

theorem Query.exists_upcoming {q : Query} {s : Session} (order : List Nat) {g : Graph}
    {space space' : GraphSpace} {it : Iterator} (hs : space.session? g = some s)
    (hq : q.isPlain = true) (h : q.iterator g space = (.ok it, space')) :
    ∃ listing, it.Upcoming s order listing := by
  cases q with
  | nodes =>
    obtain ⟨start, hstart, rfl⟩ := exists_of_map h
    obtain ⟨guard, _, rfl⟩ := NodeIterator.exists_of_start hstart
    exact ⟨_, .nodes _ rfl⟩
  | edges folded =>
    obtain rfl : folded = false := by simpa [isPlain] using hq
    obtain ⟨start, hstart, rfl⟩ := exists_of_map h
    obtain ⟨guard, _, rfl⟩ := EdgeIterator.exists_of_start hstart
    exact ⟨_, .edges _ 0 rfl rfl⟩
  | around node direction label folded =>
    obtain rfl : folded = false := by simpa [isPlain] using hq
    obtain ⟨start, hstart, rfl⟩ := exists_of_map h
    obtain ⟨guard, slot, _, rfl, hslot⟩ := EdgeIterator.exists_of_startAround hs hstart
    obtain ⟨N, hN, _⟩ := Option.map_eq_some_iff.mp (node?_of_resolveNode hslot)
    rcases s.around_cases order slot direction label false with ⟨hdone, _⟩ | ⟨id, hcursor, _⟩
    · exact ⟨_, .ended _ _ rfl hdone⟩
    · exact ⟨_, .around _ _ [] rfl (congrArg EdgeCursor.adjacent hcursor)
        ⟨AdjacencyCursor.along_start hN direction id false, rfl, List.suffix_rfl⟩⟩
  | nodesThrough view => cases hq
  | edgesThrough view => cases hq
  | aroundThrough view node direction => cases hq

/-- Where the caller may change the graph, items can be removed along every walk that is not folded. -/
theorem GraphSpace.History.removes_along_walk {space space' : GraphSpace} {g : Graph} {q : Query}
    {it : Iterator} (h : space.History) (hq : q.isPlain = true)
    (hopened : q.iterator g space = (.ok it, space')) (hwriter : space'.IsWriter g) :
    ∃ s listing, space.session? g = some s ∧ q.listing s = .ok listing ∧ it.Lists space' listing ∧
      ∀ choices, Iterator.RemovedAlong g s listing choices (it.removeAlong choices space').1
        (it.removeAlong choices space').2.1 (it.removeAlong choices space').2.2 := by
  obtain ⟨rfl, hentered⟩ := Query.enter_of_iterator hopened
  obtain ⟨shared, _, _, hshared, _⟩ := exists_granted_of_enter hentered
  have hs := session?_of_shared? hshared
  obtain ⟨order, hconsistent⟩ := (h.orderly.settled _ _ hs).consistent
  obtain ⟨listing, hlisting, _, hlists⟩ := Query.lists_of_iterator hconsistent hs hopened
  obtain ⟨ahead, hupcoming⟩ := Query.exists_upcoming order hs hq hopened
  have hs' := (Query.session?_of_iterator hopened _).trans hs
  obtain rfl := hlists.unique (hupcoming.lists hconsistent hs')
  exact ⟨_, listing, hs, hlisting, hlists,
    fun choices => hupcoming.removedAlong hconsistent hs' hwriter choices⟩

/-- A loop that is removed where it goes out does not come in. -/
example : Item.pick [true, true] [.edge selfEdge (some .outgoing), .edge selfEdge (some .incoming)] =
    ([(.edge selfEdge (some .outgoing), true)], []) := by decide

namespace GraphSpace

def sampleHeld : GraphSpace :=
  heldAfter [.addNode nodeA, .addNode nodeB, .createView true, .addEdge edgeBA, .addEdge edgeAB,
    .addEdge loopA, .fillView exampleView, .group exampleView nodeA [nodeB],
    .collapse exampleView nodeA]

theorem session?_sampleHeld : sampleHeld.session? ⟨0⟩ = some sampleStore := by
  rw [sampleHeld, session?_heldAfter]
  simp only [List.foldl_cons, List.foldl_nil, perform_addNode_nodeA, perform_addNode_nodeB]
  rfl

theorem removes_along_walk_sampleHeld : History sampleHeld ∧ ∃ it space',
    (Query.around nodeA .both none false).iterator ⟨0⟩ sampleHeld = (.ok it, space') ∧
    space'.IsWriter ⟨0⟩ ∧ ∃ s listing, sampleHeld.session? ⟨0⟩ = some s ∧
      (Query.around nodeA .both none false).listing s = .ok listing ∧ it.Lists space' listing ∧
      ∀ choices, Iterator.RemovedAlong ⟨0⟩ s listing choices (it.removeAlong choices space').1
        (it.removeAlong choices space').2.1 (it.removeAlong choices space').2.2 := by
  obtain ⟨order, hs, _⟩ := history_sampleStore.recorded
  have hslot : sampleStore.resolveNode nodeA = .ok 0 := by
    rw [resolveNode, hs.nodeSlot?_eq node?_sampleStore.1]
    rfl
  have hopened := Query.iterator_around (enter_read_eq (lock?_heldAfter _) rfl rfl)
    session?_sampleHeld hslot .both none false
  have hwriter :=
    IsWriter.of_enter ⟨_, lock?_heldAfter _, rfl⟩ (Query.enter_of_iterator hopened).2
  exact ⟨history_heldAfter _, _, _, hopened, hwriter,
    (history_heldAfter _).removes_along_walk rfl hopened hwriter⟩

end GraphSpace

end PropertyGraph

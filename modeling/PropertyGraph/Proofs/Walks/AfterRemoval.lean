import PropertyGraph.Proofs.Cascade
import PropertyGraph.Proofs.Freeze.Iterators
import PropertyGraph.Proofs.Walks.Around

/-!
# What a removal leaves of a walk

Where an edge is removed, the chains are what they were without its slot, and so is what a walk around
a node has ahead of it: it comes to the same edges, unless the edge was to come again. Only a loop is
met twice, where it goes out and where it comes in.
-/

namespace PropertyGraph

theorem filter_bne_of_notMem {l : List Nat} {slot : Nat} (h : slot ∉ l) :
    l.filter (· != slot) = l := by
  refine List.filter_eq_self.mpr fun i hi => bne_iff_ne.mpr ?_
  rintro rfl
  exact h hi

/-! ### From a position on -/

theorem Arena.Laid.slots_from_congr {α : Type} {a a' : Arena α} {position : Nat} (h : a.Laid)
    (h' : a'.Laid) (hsame : ∀ i, position ≤ i → (a'.get? i).isSome = (a.get? i).isSome) :
    a'.slots.filter (position ≤ ·) = a.slots.filter (position ≤ ·) := by
  refine List.Pairwise.eq_of_mem_iff (h'.pairwise_lt_slots.filter _) (h.pairwise_lt_slots.filter _)
    fun i => ?_
  rw [List.mem_filter, List.mem_filter, h.mem_slots, h'.mem_slots]
  refine and_congr_left fun hi => ?_
  rw [hsame i (of_decide_eq_true hi)]

theorem Arena.Laid.filterMap_slots_from_congr {α β : Type} {a a' : Arena α} {f f' : Nat → Option β}
    {position : Nat} (h : a.Laid) (h' : a'.Laid)
    (hlive : ∀ i, (f i).isSome = (a.get? i).isSome) (hlive' : ∀ i, (f' i).isSome = (a'.get? i).isSome)
    (hsame : ∀ i, position ≤ i → f' i = f i) :
    (a'.slots.filter (position ≤ ·)).filterMap f' = (a.slots.filter (position ≤ ·)).filterMap f := by
  rw [h.slots_from_congr h' fun i hi => by rw [← hlive, ← hlive', hsame i hi]]
  refine List.filterMap_congr fun i hi => hsame i ?_
  exact of_decide_eq_true (List.mem_filter.mp hi).2

namespace Store

variable {s s' : Store} {order : List Nat} {p : Phase} {n label slot i : Nat} {labels : List Nat}

def nodesFrom (s : Store) (position : Nat) : List Node :=
  (s.nodes.slots.filter (position ≤ ·)).filterMap s.node?

def edgesFrom (s : Store) (position : Nat) : List Edge :=
  (s.edges.slots.filter (position ≤ ·)).filterMap s.edge?

theorem nodesFrom_congr {position : Nat} (h : s.nodes.arena.Valid) (h' : s'.nodes.arena.Valid)
    (hsame : ∀ n, position ≤ n → s'.node? n = s.node? n) :
    s'.nodesFrom position = s.nodesFrom position :=
  h.toLaid.filterMap_slots_from_congr h'.toLaid (fun _ => Option.isSome_map)
    (fun _ => Option.isSome_map) hsame

theorem edgesFrom_congr {position : Nat} (h : s.edges.arena.Valid) (h' : s'.edges.arena.Valid)
    (hsame : ∀ i, position ≤ i → s'.edge? i = s.edge? i) :
    s'.edgesFrom position = s.edgesFrom position :=
  h.toLaid.filterMap_slots_from_congr h'.toLaid (fun _ => Option.isSome_map)
    (fun _ => Option.isSome_map) hsame

theorem filterMap_shownFrom_false (s : Store) (position : Nat) :
    (s.shownFrom false position).filterMap s.edge? = s.edgesFrom position := by
  have hall : ∀ slots : List Nat, slots.filter (s.showsEdge · false) = slots := fun _ =>
    List.filter_eq_self.mpr fun _ _ => rfl
  rw [shownFrom, edgesFrom, hall]

/-! ### A store without an edge -/

/-- From a store to one without the edge in a slot. The other edges, the nodes and the labels are
there still. -/
structure LacksEdge (slot : Nat) (s s' : Store) : Prop where
  node?_eq : ∀ n, s'.node? n = s.node? n
  fixed?_eq : ∀ i, s'.fixed? i = if i = slot then none else s.fixed? i
  labels_eq : s'.labels = s.labels

namespace LacksEdge

theorem edge?_eq (h : LacksEdge slot s s') (i : Nat) :
    s'.edge? i = if i = slot then none else s.edge? i := by
  rw [Store.edge?_eq, h.fixed?_eq, Store.edge?_eq]
  split <;> rfl

theorem onChain_eq (h : LacksEdge slot s s') (p : Phase) (n label i : Nat) :
    s'.onChain p n label i = (s.onChain p n label i && i != slot) := by
  have hfixed := h.fixed?_eq i
  by_cases hi : i = slot
  · rw [if_pos hi, fixed?, Option.map_eq_none_iff] at hfixed
    rw [onChain, hfixed, bne_eq_false_iff_eq.mpr hi, Bool.and_false]
    rfl
  · rw [if_neg hi] at hfixed
    rw [onChain_of_fixed hfixed, bne_iff_ne.mpr hi, Bool.and_true]

theorem chain_eq (h : LacksEdge slot s s') (hnodup : order.Nodup) (p : Phase) (n label : Nat) :
    (order.erase slot).filter (s'.onChain p n label) =
      (order.filter (s.onChain p n label)).filter (· != slot) := by
  rw [hnodup.erase_eq_filter, List.filter_filter, List.filter_filter]
  refine List.filter_congr fun i _ => ?_
  rw [h.onChain_eq]
  cases s.onChain p n label i <;> simp

theorem course_eq (h : LacksEdge slot s s') (hnodup : order.Nodup) (p : Phase) (n : Nat)
    (labels : List Nat) : s'.course (order.erase slot) p n labels =
      (s.course order p n labels).filter (· != slot) := by
  rw [course, course, List.filter_flatMap]
  congr 1
  funext label
  exact h.chain_eq hnodup p n label

end LacksEdge

end Store

namespace AdjacencyCursor

variable {s s' : Store} {order here : List Nat} {c : AdjacencyCursor} {slot : Nat}

theorem toCome_of_lacksEdge (h : s.LacksEdge slot s') (hnodup : order.Nodup) (c : AdjacencyCursor)
    (here : List Nat) : c.toCome s' (order.erase slot) (here.filter (· != slot)) =
      (c.toCome s order here).filter (·.2 != slot) := by
  have hlabels : c.labels s' = c.labels s := by rw [labels, labels, h.labels_eq]
  rw [toCome, toCome, course, course, hlabels, h.course_eq hnodup, List.filter_append,
    List.filter_append, List.filter_map, List.filter_map]
  refine congrArg _ (congrArg _ ?_)
  split
  · rw [h.course_eq hnodup, List.filter_map]
    rfl
  · rfl

theorem Along.of_lacksEdge (h : c.Along s order here) (hlacks : s.LacksEdge slot s')
    (hnodup : order.Nodup)
    (hpast : slot ∉ here) : c.Along s' (order.erase slot) here := by
  refine ⟨?_, h.label_le, ?_, h.next_eq, h.unfinished⟩
  · have hnode := hlacks.node?_eq c.node
    rw [← Option.isSome_map (f := NodeSlot.node), show (s'.nodes.get? c.node).map _ = _ from hnode,
      Store.node?, Option.isSome_map]
    exact h.node
  · obtain ⟨before, label, hchain⟩ := h.on_chain
    refine ⟨before.filter (· != slot), label, ?_⟩
    rw [hlacks.chain_eq hnodup, hchain, List.filter_append, filter_bne_of_notMem hpast]

/-- What a walk has ahead of it is still the end of its course where an edge is removed that is not left
of the chain that it is on. -/
theorem suffix_of_lacksEdge (hsuffix : c.toCome s order here <:+
      (start c.node c.direction c.label c.folded).toCome s order [])
    (hlacks : s.LacksEdge slot s') (hnodup : order.Nodup) (hpast : slot ∉ here) :
    c.toCome s' (order.erase slot) here <:+
      (start c.node c.direction c.label c.folded).toCome s' (order.erase slot) [] := by
  have htoCome := toCome_of_lacksEdge hlacks hnodup c here
  rw [filter_bne_of_notMem hpast] at htoCome
  have hwhole := toCome_of_lacksEdge hlacks hnodup (start c.node c.direction c.label c.folded) []
  rw [List.filter_nil] at hwhole
  rw [htoCome, hwhole]
  exact hsuffix.filter _

theorem end_of_mem_toCome_start {n : Nat} {direction : Direction} {label : Option Nat} {folded : Bool}
    {x : Phase × Nat} (hx : x ∈ (start n direction label folded).toCome s order []) :
    ∃ e, s.edges.get? x.2 = some e ∧ e.ends.get x.1 = n := by
  rw [toCome_start] at hx
  obtain ⟨p, _, hmem⟩ := List.mem_flatMap.mp hx
  obtain ⟨i, hi, rfl⟩ := List.mem_map.mp hmem
  obtain ⟨_, e, he, hend, _⟩ := Store.mem_course.mp hi
  exact ⟨e, he, hend⟩

/-- A walk comes to a slot twice only if it goes both ways, first on the way out and then on the way
in. -/
theorem pairwise_toCome_start (hs : s.Sound order) (n : Nat) (direction : Direction)
    (label : Option Nat) (folded : Bool) :
    ((start n direction label folded).toCome s order []).Pairwise fun x y => y.2 = x.2 →
      direction = .both ∧ x.1 = .outgoing ∧ y.1 = .incoming := by
  have hhalf : ∀ p : Phase, ((s.course order p n
      ((start n direction label folded).labels s)).map (p, ·)).Pairwise fun x y => y.2 = x.2 →
        direction = .both ∧ x.1 = .outgoing ∧ y.1 = .incoming := fun p =>
    List.pairwise_map.mpr ((Store.nodup_course hs.nodup
      ((pairwise_lt_labels hs _).imp Nat.ne_of_lt)).imp fun hne hsame => absurd hsame.symm hne)
  rw [toCome_start]
  cases direction with
  | outgoing =>
    rw [Direction.phases, List.flatMap_singleton]
    exact hhalf .outgoing
  | incoming =>
    rw [Direction.phases, List.flatMap_singleton]
    exact hhalf .incoming
  | both =>
    rw [Direction.phases, List.flatMap_cons, List.flatMap_singleton]
    refine List.pairwise_append.mpr ⟨hhalf .outgoing, hhalf .incoming, fun x hx y hy _ => ?_⟩
    obtain ⟨i, _, rfl⟩ := List.mem_map.mp hx
    obtain ⟨j, _, rfl⟩ := List.mem_map.mp hy
    exact ⟨rfl, rfl, rfl⟩

theorem notMem_of_past (hs : s.Sound order) (hpast : (c.phase, slot) :: c.toCome s order here <:+
    (start c.node c.direction c.label c.folded).toCome s order []) : slot ∉ here := by
  have hnodup := hpast.sublist.nodup (nodup_toCome_start hs c.node c.direction c.label c.folded)
  intro hmem
  exact (List.nodup_cons.mp hnodup).1 (List.mem_append_left _ (List.mem_map_of_mem hmem))

/-- A walk that is not folded is under way, at a place of the course on which it started. -/
structure AlongFromStart (s : Store) (order : List Nat) (c : AdjacencyCursor) (here : List Nat) : Prop
    extends c.Along s order here where
  plain : c.folded = false
  suffix : c.toCome s order here <:+
    (start c.node c.direction c.label c.folded).toCome s order []

namespace AlongFromStart

theorem shown_eq (h : c.AlongFromStart s order here) : c.shown s order here = c.toCome s order here := by
  refine List.filter_eq_self.mpr fun x _ => ?_
  rw [Store.shows, h.plain]
  rfl

theorem length_lt (h : c.AlongFromStart s order here) (hs : s.Sound order) :
    (c.toCome s order here).length < s.walkBound := by
  obtain ⟨N, hN⟩ := Option.isSome_iff_exists.mp h.node
  have hlength := h.suffix.length_le.trans
    (length_toCome_start_le hs hN c.direction c.label c.folded)
  rw [Store.walkBound]
  omega

theorem of_lacksEdge (h : c.AlongFromStart s order here) (hlacks : s.LacksEdge slot s')
    (hnodup : order.Nodup)
    (hpast : slot ∉ here) : c.AlongFromStart s' (order.erase slot) here :=
  ⟨h.toAlong.of_lacksEdge hlacks hnodup hpast, h.plain, suffix_of_lacksEdge h.suffix hlacks hnodup hpast⟩

end AlongFromStart

end AdjacencyCursor

/-! ### Items -/

namespace Item

/-- Whether the item is a loop that comes in, which went out as the other item. -/
def isReturnOf (item first : Item) : Bool :=
  match first, item with
  | .edge went (some .outgoing), .edge comes (some .incoming) =>
    comes = went ∧ went.source = went.target
  | _, _ => false

theorem isReturnOf_of_outgoing (edge : Edge) (first : Item) :
    (Item.edge edge (some .outgoing)).isReturnOf first = false := by
  unfold isReturnOf
  split
  · next heq => cases heq
  · rfl

theorem isReturnOf_of_ne {edge edge' : Edge} (hne : edge' ≠ edge) (p q : Option Phase) :
    (Item.edge edge' p).isReturnOf (.edge edge q) = false := by
  unfold isReturnOf
  split
  · next heq heq' =>
    cases heq
    cases heq'
    exact decide_eq_false fun hsame => hne hsame.1
  · rfl

def takesNode : Item → Node → Bool
  | .node gone, other => other = gone
  | .edge _ _, _ => false

/-- Whether the edge leaves the graph when the item is removed: with a node go the edges at it. -/
def takesEdge : Item → Edge → Bool
  | .node gone, other => other.touches gone
  | .edge gone _, other => other = gone

end Item

namespace Session

variable {s s' s'' : Session} {order here : List Nat} {gone gone' : List Item} {node : Node}
  {edge : Edge} {slot : Nat} {c : AdjacencyCursor}

/-- From a session to one from which some items were removed: what they take along is in no slot and
not stored any more, and all else is where it was. -/
structure RemovesItems (gone : List Item) (s s' : Session) : Prop where
  node?_eq : ∀ n, s'.store.node? n = (s.store.node? n).filter fun node => !gone.any (·.takesNode node)
  edge?_eq : ∀ i, s'.store.edge? i = (s.store.edge? i).filter fun edge => !gone.any (·.takesEdge edge)
  containsNode_eq : ∀ node,
    s'.containsNode node = (s.containsNode node && !gone.any (·.takesNode node))
  containsEdge_eq : ∀ edge,
    s'.containsEdge edge = (s.containsEdge edge && !gone.any (·.takesEdge edge))

namespace RemovesItems

theorem of_slots {order' : List Nat} (hs : s.Consistent order) (hs' : s'.Consistent order')
    (hnode : ∀ n, s'.store.node? n =
      (s.store.node? n).filter fun node => !gone.any (·.takesNode node))
    (hedge : ∀ i, s'.store.edge? i =
      (s.store.edge? i).filter fun edge => !gone.any (·.takesEdge edge)) : RemovesItems gone s s' where
  node?_eq := hnode
  edge?_eq := hedge
  containsNode_eq := by
    intro node
    rw [Bool.eq_iff_iff, Bool.and_eq_true, hs.containsNode_iff, hs'.containsNode_iff]
    simp only [hnode, Option.filter_eq_some_iff, exists_and_right]
  containsEdge_eq := by
    intro edge
    rw [Bool.eq_iff_iff, Bool.and_eq_true, hs.containsEdge_iff, hs'.containsEdge_iff]
    simp only [hedge, Option.filter_eq_some_iff, exists_and_right]

theorem refl (s : Session) : RemovesItems [] s s where
  node?_eq := fun n => by cases s.store.node? n <;> rfl
  edge?_eq := fun i => by cases s.store.edge? i <;> rfl
  containsNode_eq := fun _ => (Bool.and_true _).symm
  containsEdge_eq := fun _ => (Bool.and_true _).symm

theorem trans (h : RemovesItems gone s s') (h' : RemovesItems gone' s' s'') :
    RemovesItems (gone ++ gone') s s'' where
  node?_eq := by
    intro n
    rw [h'.node?_eq, h.node?_eq, Option.filter_filter]
    congr 1
    funext node
    rw [List.any_append, Bool.not_or]
  edge?_eq := by
    intro i
    rw [h'.edge?_eq, h.edge?_eq, Option.filter_filter]
    congr 1
    funext edge
    rw [List.any_append, Bool.not_or]
  containsNode_eq := by
    intro node
    rw [h'.containsNode_eq, h.containsNode_eq, List.any_append, Bool.not_or, Bool.and_assoc]
  containsEdge_eq := by
    intro edge
    rw [h'.containsEdge_eq, h.containsEdge_eq, List.any_append, Bool.not_or, Bool.and_assoc]

end RemovesItems

theorem Consistent.removesItems_removeNode (hs : s.Consistent order)
    (hnode : s.store.node? slot = some node) : (removeNode node s).1 = .ok true ∧
      (∃ order', (removeNode node s).2.Consistent order') ∧
      RemovesItems [.node node] s (removeNode node s).2 := by
  have hslot := hs.nodeSlot?_eq hnode
  obtain ⟨place, hremoved⟩ := hs.removeNode_of_stored hslot
  obtain ⟨order', _, hs'⟩ := (loses_removeNode node s order hs).exists_sublist
  have hcascades := hs.cascades hslot
  refine ⟨by rw [hremoved], ⟨order', hs'⟩, .of_slots hs hs' (fun n => ?_) fun i => ?_⟩
  · rw [hcascades.node?_eq]
    congr 1
    funext other
    simp [Item.takesNode]
  · rw [hcascades.edge?_eq]
    congr 1
    funext edge
    simp [Item.takesEdge]

theorem Consistent.nodesFrom_removeNode (hs : s.Consistent order)
    (hnode : s.store.node? slot = some node) {position : Nat} (hpast : slot < position) :
    (removeNode node s).2.store.nodesFrom position = s.store.nodesFrom position := by
  obtain ⟨_, ⟨_, hs'⟩, hremoves⟩ := hs.removesItems_removeNode hnode
  refine Store.nodesFrom_congr hs.sound.nodes_valid hs'.sound.nodes_valid fun n hn => ?_
  rw [hremoves.node?_eq]
  cases hother : s.store.node? n with
  | none => rfl
  | some other =>
    have hne : other ≠ node := by
      rintro rfl
      have hsame := hs.node_unique hother hnode
      omega
    simp [Option.filter_some, Item.takesNode, hne]

theorem Consistent.lacksEdge_removeEdge (hs : s.Consistent order)
    (hedge : s.store.edge? slot = some edge) :
    s.store.LacksEdge slot (removeEdge edge s).2.store ∧
      (removeEdge edge s).2.Consistent (order.erase slot) := by
  obtain ⟨_, _, hs'⟩ := (loses_removeEdge edge s order hs).exists_sublist
  obtain ⟨e, place, he, _, h⟩ := hs.exists_removeEdge_eq hedge
  rw [h] at hs' ⊢
  refine ⟨⟨fun n => node?_forgetEdge, fun i => fixed?_forgetEdge hs.sound, ?_⟩,
    { hs' with sound := (hs.sound.removeEdge he).of_eq rfl rfl rfl }⟩
  change (s.store.unlink slot e).labels = _
  rw [Store.unlink_eq]

theorem Consistent.edgesFrom_removeEdge (hs : s.Consistent order)
    (hedge : s.store.edge? slot = some edge) {position : Nat} (hpast : slot < position) :
    (removeEdge edge s).2.store.edgesFrom position = s.store.edgesFrom position := by
  obtain ⟨hlacks, hs'⟩ := hs.lacksEdge_removeEdge hedge
  refine Store.edgesFrom_congr hs.sound.edges_valid hs'.sound.edges_valid fun i hi => ?_
  rw [hlacks.edge?_eq, if_neg (by omega)]

theorem Consistent.removesItems_removeEdge (hs : s.Consistent order)
    (hedge : s.store.edge? slot = some edge) (phase : Option Phase) :
    RemovesItems [.edge edge phase] s (removeEdge edge s).2 := by
  have hedgesLost := hs.losesEdges_removeEdge hedge
  refine .of_slots hs (hs.lacksEdge_removeEdge hedge).2 (fun n => ?_) fun i => ?_
  · rw [hedgesLost.node?_eq]
    cases s.store.node? n <;> rfl
  · rw [hedgesLost.edge?_eq]
    congr 1
    funext other
    simp [Item.takesEdge]

theorem Consistent.loop_of_mem_toCome_start (hs : s.Consistent order)
    (hedge : s.store.edge? slot = some edge) {n : Nat} {direction : Direction} {label : Option Nat}
    {folded : Bool}
    (hout : (.outgoing, slot) ∈
      (AdjacencyCursor.start n direction label folded).toCome s.store order [])
    (hin : (.incoming, slot) ∈
      (AdjacencyCursor.start n direction label folded).toCome s.store order []) :
    edge.source = edge.target := by
  obtain ⟨e, he, hsource⟩ := AdjacencyCursor.end_of_mem_toCome_start hout
  obtain ⟨e', he', htarget⟩ := AdjacencyCursor.end_of_mem_toCome_start hin
  rw [he, Option.some.injEq] at he'
  subst he'
  rw [Store.edge?_eq_some he, Option.some.injEq] at hedge
  have hi := Store.Sound.plain?_eq_some he
  have hloop : e.edge.source = e.edge.target :=
    (hs.end_eq_iff (p := .outgoing) (q := .incoming) hi hi).mp (hsource.trans htarget.symm)
  exact hedge ▸ hloop

/-- A walk around a node comes to a slot again only where a loop went out, and now comes in. -/
theorem Consistent.loop_of_mem_toCome (hs : s.Consistent order)
    (hedge : s.store.edge? slot = some edge) {p : Phase}
    (hpast : (c.phase, slot) :: c.toCome s.store order here <:+
      (AdjacencyCursor.start c.node c.direction c.label c.folded).toCome s.store order [])
    (hagain : (p, slot) ∈ c.toCome s.store order here) :
    c.phase = .outgoing ∧ p = .incoming ∧ edge.source = edge.target := by
  have hpairs := (AdjacencyCursor.pairwise_toCome_start hs.sound c.node c.direction c.label
    c.folded).sublist hpast.sublist
  obtain ⟨_, hout, hin⟩ := (List.pairwise_cons.mp hpairs).1 _ hagain rfl
  change c.phase = .outgoing at hout
  change p = .incoming at hin
  subst hin
  rw [hout] at hpast
  exact ⟨hout, rfl, hs.loop_of_mem_toCome_start hedge (hpast.subset List.mem_cons_self)
    (hpast.subset (List.mem_cons_of_mem _ hagain))⟩

/-- Where the edge that came last is removed, a walk around a node comes to what it would have come to,
but for the return of a loop. -/
theorem Consistent.items_of_lacksEdge (hs : s.Consistent order)
    (hedge : s.store.edge? slot = some edge)
    (hpast : (c.phase, slot) :: c.toCome s.store order here <:+
      (AdjacencyCursor.start c.node c.direction c.label c.folded).toCome s.store order [])
    (hlacks : s.store.LacksEdge slot s'.store) :
    slot ∉ here ∧ (c.toCome s'.store (order.erase slot) here).filterMap (EdgeIterator.itemAt s') =
      ((c.toCome s.store order here).filterMap (EdgeIterator.itemAt s)).filter
        (!·.isReturnOf (.edge edge (some c.phase))) := by
  have hhere := AdjacencyCursor.notMem_of_past hs.sound hpast
  have htoCome := AdjacencyCursor.toCome_of_lacksEdge hlacks hs.sound.nodup c here
  rw [filter_bne_of_notMem hhere] at htoCome
  refine ⟨hhere, ?_⟩
  rw [htoCome, List.filterMap_filter, List.filter_filterMap]
  refine List.filterMap_congr fun x hx => ?_
  obtain ⟨p, i⟩ := x
  by_cases hi : i = slot
  · subst hi
    obtain ⟨hwent, rfl, hloop⟩ := hs.loop_of_mem_toCome hedge hpast hx
    have hreturn : (Item.edge edge (some .incoming)).isReturnOf (.edge edge (some c.phase)) = true := by
      rw [hwent, Item.isReturnOf, decide_eq_true_iff]
      exact ⟨rfl, hloop⟩
    rw [bne_self_eq_false, if_neg Bool.false_ne_true, EdgeIterator.itemAt_of_edge? hedge,
      Option.filter_some, hreturn]
    rfl
  · rw [if_pos (bne_iff_ne.mpr hi), EdgeIterator.itemAt, EdgeIterator.itemAt, hlacks.edge?_eq,
      if_neg hi]
    cases hedge' : s.store.edge? i with
    | none => rfl
    | some edge' =>
      have hne : edge' ≠ edge := by
        rintro rfl
        exact hi (hs.edge_unique hedge' hedge)
      rw [Option.map_some, Option.filter_some, Item.isReturnOf_of_ne hne]
      rfl

end Session

end PropertyGraph

import PropertyGraph.Proofs.Observing.Diffs
import PropertyGraph.Proofs.SameVersionChange
import PropertyGraph.Proofs.Session.Homes

/-!
# Counting what comes and goes

Every call counts what it does to the stored nodes and edges, and to the members of a flat view, if
it does anything to them, and does not count otherwise. A call for several elements may stop midway;
it has counted what it did by then. As it only brings, or only takes away, it does not return to
where it began, and there are fewer slots than a counter has values.
-/

namespace PropertyGraph

/-! ### Memberships by slots -/

section Seen

variable {α : Type} {f f' : Nat → Option α} {slots slots' : IdSet}

def seen (f : Nat → Option α) (slots : IdSet) : Set α :=
  {x | ∃ n, f n = some x ∧ slots.contains n = true}

/-- Where nothing moves from slot to slot, the elements are the same exactly if the slots are. -/
theorem seen_eq_iff (hlive : ∀ n, slots.contains n = true → (f n).isSome)
    (hlive' : ∀ n, slots'.contains n = true → (f' n).isSome)
    (hsame : ∀ n x y, f n = some x → f' n = some y → x = y)
    (hplace : ∀ n m x, f n = some x → f' m = some x → n = m) :
    seen f' slots' = seen f slots ↔ slots' = slots := by
  constructor
  · intro heq
    ext n
    rw [Bool.eq_iff_iff]
    constructor
    · intro hn
      obtain ⟨x, hx⟩ := Option.isSome_iff_exists.mp (hlive' n hn)
      have hmem : x ∈ seen f slots := heq ▸ ⟨n, hx, hn⟩
      obtain ⟨m, hm, hslot⟩ := hmem
      rwa [← hplace m n x hm hx]
    · intro hn
      obtain ⟨x, hx⟩ := Option.isSome_iff_exists.mp (hlive n hn)
      have hmem : x ∈ seen f' slots' := heq ▸ ⟨n, hx, hn⟩
      obtain ⟨m, hm, hslot⟩ := hmem
      rwa [hplace n m x hx hm]
  · rintro rfl
    ext x
    refine exists_congr fun n => and_congr_left fun hn => ?_
    obtain ⟨y, hy⟩ := Option.isSome_iff_exists.mp (hlive n hn)
    obtain ⟨z, hz⟩ := Option.isSome_iff_exists.mp (hlive' n hn)
    rw [hy, hz, hsame n y z hy hz]

end Seen

theorem Version.Counts.eq_iff {c c' : Int32} {more fewer : IdSet} (h : Counts c c' more fewer)
    (hsize : more.size < 2 ^ 31) : c' = c ↔ more = fewer := by
  constructor
  · exact h.eq_of_eq hsize
  · rintro rfl
    exact h.counter_eq

theorem Version.eq_iff {v v' : Version} : v' = v ↔ v'.node = v.node ∧ v'.edge = v.edge := by
  cases v
  cases v'
  simp

namespace Session

open PropertyGraph.Action

variable {s s' s'' : Session} {order order' : List Nat} {view : View} {r r' : ViewRecord}
  {node : Node} {edge : Edge} {slot : Nat} {e : EdgeSlot}

def nodeSlots (s : Session) : IdSet := .ofList s.store.nodes.slots

def edgeSlots (s : Session) : IdSet := .ofList s.store.edges.slots

def members (s : Session) : Option View → Members
  | none =>
    { nodes := {node | ∃ n, s.store.node? n = some node}
      edges := {edge | ∃ i, s.store.edge? i = some edge} }
  | some view => { nodes := s.visibleNodes view, edges := s.visibleEdges view }

theorem contains_nodeSlots (hs : s.Consistent order) (n : Nat) :
    s.nodeSlots.contains n = (s.store.node? n).isSome := by
  rw [nodeSlots, IdSet.contains_ofList, Bool.eq_iff_iff, decide_eq_true_iff]
  exact hs.sound.mem_nodeSlots

theorem contains_edgeSlots (hs : s.Consistent order) (i : Nat) :
    s.edgeSlots.contains i = (s.store.edge? i).isSome := by
  rw [edgeSlots, IdSet.contains_ofList, Bool.eq_iff_iff, decide_eq_true_iff, Store.edge?_eq,
    Option.isSome_map]
  exact hs.sound.mem_edgeSlots

theorem size_nodeSlots_lt (hs : s.Consistent order) : s.nodeSlots.size < 2 ^ 31 := by
  have hle : s.nodeSlots.size ≤ Arena.maxLength := by
    refine IdSet.size_le fun n hn => ?_
    rw [contains_nodeSlots hs, Store.node?, Option.isSome_map, Option.isSome_iff_exists] at hn
    obtain ⟨N, hN⟩ := hn
    exact hs.sound.nodes_valid.lt_maxLength hN
  exact Nat.lt_of_le_of_lt hle (by decide)

theorem size_edgeSlots_lt (hs : s.Consistent order) : s.edgeSlots.size < 2 ^ 31 := by
  have hle : s.edgeSlots.size ≤ Arena.maxLength := by
    refine IdSet.size_le fun i hi => ?_
    rw [contains_edgeSlots hs, Store.edge?, Option.isSome_map, Option.isSome_iff_exists] at hi
    obtain ⟨e, he⟩ := hi
    exact hs.sound.edges_valid.lt_maxLength he
  exact Nat.lt_of_le_of_lt hle (by decide)

theorem members_none (hs : s.Consistent order) :
    s.members none = ⟨seen s.store.node? s.nodeSlots, seen s.store.edge? s.edgeSlots⟩ := by
  ext x
  · refine exists_congr fun n => ?_
    rw [contains_nodeSlots hs]
    exact ⟨fun hn => ⟨hn, by rw [hn]; rfl⟩, fun hn => hn.1⟩
  · refine exists_congr fun i => ?_
    rw [contains_edgeSlots hs]
    exact ⟨fun hi => ⟨hi, by rw [hi]; rfl⟩, fun hi => hi.1⟩

theorem members_of_flat (hs : s.Consistent order) (hr : s.viewRecord view = .ok r)
    (hflat : r.groups = none) :
    s.members (some view) = ⟨seen s.store.node? r.nodes, seen s.store.edge? r.edges⟩ := by
  have hhides : ∀ n, r.hides n = false := fun n => by rw [ViewRecord.hides, hflat]; rfl
  ext x
  · refine (mem_visibleNodes hs hr).trans (exists_congr fun n => and_congr_right fun _ => ?_)
    rw [ViewRecord.showsNode, hhides]
    simp
  · refine (mem_visibleEdges hs hr).trans (exists_congr fun i => ?_)
    simp only [ViewRecord.showsEdge, hhides, Bool.not_false, Bool.and_true]
    rw [Store.edge?_eq, Option.map_eq_some_iff]
    constructor
    · rintro ⟨y, hy, hx, hshown⟩
      exact ⟨⟨y, hy, hx⟩, hshown⟩
    · rintro ⟨⟨y, hy, hx⟩, hshown⟩
      exact ⟨y, hy, hx, hshown⟩

/-! ### Where elements stay in their slots -/

/-- What both sessions store, they store in the same slots. -/
structure Anchored (s s' : Session) : Prop where
  node_eq : ∀ n x y, s.store.node? n = some x → s'.store.node? n = some y → x = y
  edge_eq : ∀ i x y, s.store.edge? i = some x → s'.store.edge? i = some y → x = y
  node_place : ∀ n m x, s.store.node? n = some x → s'.store.node? m = some x → n = m
  edge_place : ∀ i j x, s.store.edge? i = some x → s'.store.edge? j = some x → i = j

theorem Anchored.symm (h : Anchored s s') : Anchored s' s where
  node_eq := fun n x y hx hy => (h.node_eq n y x hy hx).symm
  edge_eq := fun i x y hx hy => (h.edge_eq i y x hy hx).symm
  node_place := fun n m x hx hy => (h.node_place m n x hy hx).symm
  edge_place := fun i j x hx hy => (h.edge_place j i x hy hx).symm

theorem Anchored.of_kept (hs' : s'.Consistent order)
    (hnode : ∀ n x, s.store.node? n = some x → s'.store.node? n = some x)
    (hedge : ∀ i x, s.store.fixed? i = some x → s'.store.fixed? i = some x) : Anchored s s' := by
  have hedge' : ∀ i x, s.store.edge? i = some x → s'.store.edge? i = some x := by
    intro i x hx
    rw [Store.edge?_eq, Option.map_eq_some_iff] at hx ⊢
    obtain ⟨y, hy, rfl⟩ := hx
    exact ⟨y, hedge i y hy, rfl⟩
  refine ⟨fun n x y hx hy => ?_, fun i x y hx hy => ?_, fun n m x hx hy => ?_,
    fun i j x hx hy => ?_⟩
  · rw [hnode n x hx, Option.some.injEq] at hy
    exact hy
  · rw [hedge' i x hx, Option.some.injEq] at hy
    exact hy
  · exact hs'.node_unique (hnode n x hx) hy
  · exact hs'.edge_unique (hedge' i x hx) hy

theorem Anchored.members_none_eq_iff (h : Anchored s s') (hs : s.Consistent order)
    (hs' : s'.Consistent order') :
    s'.members none = s.members none ↔ s'.nodeSlots = s.nodeSlots ∧ s'.edgeSlots = s.edgeSlots := by
  rw [members_none hs, members_none hs', Members.mk.injEq]
  refine and_congr (seen_eq_iff ?_ ?_ h.node_eq h.node_place)
    (seen_eq_iff ?_ ?_ h.edge_eq h.edge_place)
  · exact fun n hn => contains_nodeSlots hs n ▸ hn
  · exact fun n hn => contains_nodeSlots hs' n ▸ hn
  · exact fun i hi => contains_edgeSlots hs i ▸ hi
  · exact fun i hi => contains_edgeSlots hs' i ▸ hi

theorem isSome_edge?_of_closed (h : r.Closed s.store) (i : Nat) (hi : r.edges.contains i = true) :
    (s.store.edge? i).isSome := by
  obtain ⟨x, hx, _⟩ := h.edge_live i hi
  rw [Store.edge?_eq, hx]
  rfl

theorem Anchored.members_some_eq_iff (h : Anchored s s') (hs : s.Consistent order)
    (hs' : s'.Consistent order') (hr : s.viewRecord view = .ok r)
    (hr' : s'.viewRecord view = .ok r') (hflat : r.groups = none) (hflat' : r'.groups = none) :
    s'.members (some view) = s.members (some view) ↔ r'.nodes = r.nodes ∧ r'.edges = r.edges := by
  have hclosed := hs.closed _ r (get?_of_viewRecord hr)
  have hclosed' := hs'.closed _ r' (get?_of_viewRecord hr')
  rw [members_of_flat hs hr hflat, members_of_flat hs' hr' hflat', Members.mk.injEq]
  exact and_congr (seen_eq_iff hclosed.node_live hclosed'.node_live h.node_eq h.node_place)
    (seen_eq_iff (isSome_edge?_of_closed hclosed) (isSome_edge?_of_closed hclosed') h.edge_eq
      h.edge_place)

/-! ### The counters of the whole store -/

/-- Slots were taken, each of them counted. -/
structure CountsArrivals (s s' : Session) : Prop where
  nodes : Version.Counts s.store.version.node s'.store.version.node s'.nodeSlots s.nodeSlots
  edges : Version.Counts s.store.version.edge s'.store.version.edge s'.edgeSlots s.edgeSlots

/-- Slots were given back, each of them counted. -/
structure CountsDepartures (s s' : Session) : Prop where
  nodes : Version.Counts s.store.version.node s'.store.version.node s.nodeSlots s'.nodeSlots
  edges : Version.Counts s.store.version.edge s'.store.version.edge s.edgeSlots s'.edgeSlots

theorem CountsArrivals.of_eq (hversion : s'.store.version = s.store.version)
    (hnodes : s'.nodeSlots = s.nodeSlots) (hedges : s'.edgeSlots = s.edgeSlots) :
    CountsArrivals s s' := by
  constructor
  · rw [hversion, hnodes]
    exact .refl _ _
  · rw [hversion, hedges]
    exact .refl _ _

theorem CountsArrivals.refl (s : Session) : CountsArrivals s s := .of_eq rfl rfl rfl

theorem CountsDepartures.refl (s : Session) : CountsDepartures s s := ⟨.refl _ _, .refl _ _⟩

theorem CountsArrivals.trans (h : CountsArrivals s s') (h' : CountsArrivals s' s'') :
    CountsArrivals s s'' :=
  ⟨h.nodes.trans' h'.nodes, h.edges.trans' h'.edges⟩

theorem CountsDepartures.trans (h : CountsDepartures s s') (h' : CountsDepartures s' s'') :
    CountsDepartures s s'' :=
  ⟨h.nodes.trans h'.nodes, h.edges.trans h'.edges⟩

theorem counts_told {nodes edges : Bool} {event : Event} {more fewer more' fewer' : IdSet}
    (hversion : s'.store.version = s.store.version) (hnodes : nodes = true ↔ fewer ≠ more)
    (hedges : edges = true ↔ fewer' ≠ more')
    (hnode : ∀ n, fewer.contains n = true → more.contains n = true)
    (hedge : ∀ i, fewer'.contains i = true → more'.contains i = true) :
    Version.Counts s.store.version.node ((s'.bumpIf nodes edges).tell event).store.version.node
        more fewer ∧
      Version.Counts s.store.version.edge ((s'.bumpIf nodes edges).tell event).store.version.edge
        more' fewer' := by
  have hnodes' : nodes = decide (fewer ≠ more) := by
    rwa [Bool.eq_iff_iff, decide_eq_true_iff]
  have hedges' : edges = decide (fewer' ≠ more') := by
    rwa [Bool.eq_iff_iff, decide_eq_true_iff]
  constructor
  · refine .of_bump ?_ hnodes' hnode
    rw [← hversion]
    exact Version.node_bumpIf
  · refine .of_bump ?_ hedges' hedge
    rw [← hversion]
    exact Version.edge_bumpIf

theorem CountsArrivals.told {nodes edges : Bool} {event : Event}
    (hversion : s'.store.version = s.store.version)
    (hnodes : nodes = true ↔ s.nodeSlots ≠ s'.nodeSlots)
    (hedges : edges = true ↔ s.edgeSlots ≠ s'.edgeSlots)
    (hnode : ∀ n, s.nodeSlots.contains n = true → s'.nodeSlots.contains n = true)
    (hedge : ∀ i, s.edgeSlots.contains i = true → s'.edgeSlots.contains i = true) :
    CountsArrivals s ((s'.bumpIf nodes edges).tell event) := by
  obtain ⟨hcounts, hcounts'⟩ := counts_told hversion hnodes hedges hnode hedge
  exact ⟨hcounts, hcounts'⟩

theorem CountsDepartures.told {nodes edges : Bool} {event : Event}
    (hversion : s'.store.version = s.store.version)
    (hnodes : nodes = true ↔ s'.nodeSlots ≠ s.nodeSlots)
    (hedges : edges = true ↔ s'.edgeSlots ≠ s.edgeSlots)
    (hnode : ∀ n, s'.nodeSlots.contains n = true → s.nodeSlots.contains n = true)
    (hedge : ∀ i, s'.edgeSlots.contains i = true → s.edgeSlots.contains i = true) :
    CountsDepartures s ((s'.bumpIf nodes edges).tell event) := by
  obtain ⟨hcounts, hcounts'⟩ := counts_told hversion hnodes hedges hnode hedge
  exact ⟨hcounts, hcounts'⟩

theorem CountsArrivals.version_eq_iff (h : CountsArrivals s s') (hanchored : Anchored s s')
    (hs : s.Consistent order)
    (hs' : s'.Consistent order') :
    s'.store.version = s.store.version ↔ s'.members none = s.members none := by
  rw [Version.eq_iff, hanchored.members_none_eq_iff hs hs']
  exact and_congr (h.nodes.eq_iff (size_nodeSlots_lt hs')) (h.edges.eq_iff (size_edgeSlots_lt hs'))

theorem CountsDepartures.version_eq_iff (h : CountsDepartures s s') (hanchored : Anchored s s')
    (hs : s.Consistent order)
    (hs' : s'.Consistent order') :
    s'.store.version = s.store.version ↔ s'.members none = s.members none := by
  rw [Version.eq_iff, hanchored.members_none_eq_iff hs hs']
  refine and_congr ?_ ?_
  · rw [h.nodes.eq_iff (size_nodeSlots_lt hs), eq_comm]
  · rw [h.edges.eq_iff (size_edgeSlots_lt hs), eq_comm]

/-! ### One call

What a call does to the slots is read off the sessions before and after it, which are consistent. -/

theorem ne_of_contains (slot : Nat) {slots slots' : IdSet} (hfree : slots.contains slot = false)
    (htaken : slots'.contains slot = true) : slots ≠ slots' := by
  rintro rfl
  rw [htaken] at hfree
  cases hfree

theorem countsArrivals_addNode (hs : s.Consistent order) (node : Node) :
    CountsArrivals s (addNode node s).2 := by
  obtain ⟨_, hkept, _, fresh, hs', _⟩ := gains_addNode node s order hs
  rcases addNode_cases hs node with
    ⟨answer, h⟩ | ⟨slot, nodes, event, _, _, _, hfree, hget, _, h⟩
  · rw [h]
    exact .refl s
  · have hslots := contains_nodeSlots hs'
    rw [h] at hkept hslots ⊢
    refine .told rfl (iff_of_true rfl (ne_of_contains slot ?_ ?_))
      (iff_of_false nofun (not_not_intro rfl)) (fun n hn => ?_) fun i hi => hi
    · rw [contains_nodeSlots hs, Store.node?, hfree]
      rfl
    · refine (hslots slot).trans ?_
      change ((nodes.get? slot).map _).isSome = true
      rw [hget, if_pos rfl]
      rfl
    · rw [contains_nodeSlots hs, Option.isSome_iff_exists] at hn
      obtain ⟨x, hx⟩ := hn
      exact (hslots n).trans (by rw [hkept n x hx]; rfl)

theorem countsArrivals_placeEdge (hs : s.Consistent order) {source target : Nat}
    (hgains : ∃ came, Gains s (placeEdge edge source target s).2 came) :
    CountsArrivals s (placeEdge edge source target s).2 := by
  obtain ⟨came, hgains⟩ := hgains
  obtain ⟨_, _, hkept, fresh, hs', _⟩ := hgains order hs
  obtain ⟨labels, _, _, ⟨fault, h⟩ |
    ⟨slot, label, arena, event, t, _, _, _, hfree, hget, hlink, h⟩⟩ :=
      placeEdge_run hs edge source target
  · -- The label of an edge that is refused may stay behind, but labels are not counted.
    rw [h]
    exact .of_eq rfl rfl rfl
  · have hslots := contains_edgeSlots hs'
    have hnodes := contains_nodeSlots hs'
    rw [h] at hkept hslots hnodes ⊢
    have hversion : t.version = s.store.version := by rw [hlink, Store.link_eq]
    have hnode : ∀ n, t.node? n = s.store.node? n := by
      intro n
      rw [hlink, Store.node?_link]
      rfl
    have hsame : s.nodeSlots =
        (⟨s.catalog.bindEdge edge ⟨t.token, slot⟩, t⟩ : Session).nodeSlots := by
      ext n
      rw [contains_nodeSlots hs, ← hnode]
      exact (hnodes n).symm
    refine .told hversion (iff_of_false nofun (not_not_intro hsame))
      (iff_of_true rfl (ne_of_contains slot ?_ ?_)) (fun n hn => hsame ▸ hn) fun i hi => ?_
    · rw [contains_edgeSlots hs, Store.edge?, hfree]
      rfl
    · refine (hslots slot).trans ?_
      change (t.edge? slot).isSome = true
      rw [hlink, Store.edge?_eq, Store.fixed?_link_alloc hget, if_pos rfl]
      rfl
    · rw [contains_edgeSlots hs, Store.edge?_eq, Option.isSome_map, Option.isSome_iff_exists] at hi
      obtain ⟨x, hx⟩ := hi
      refine (hslots i).trans ?_
      rw [Store.edge?_eq, hkept i x hx]
      rfl

theorem countsArrivals_addEdge (hs : s.Consistent order) (edge : Edge) :
    CountsArrivals s (addEdge edge s).2 := by
  rcases addEdge_cases edge s with ⟨fault, h⟩ | ⟨h, _⟩ |
    ⟨source, target, hhome, hsource, htarget, hrefusal, h⟩
  · rw [h]
    exact .refl s
  · rw [h]
    exact .refl s
  · rw [h]
    refine countsArrivals_placeEdge hs ?_
    rcases placeEdge_cases hs hhome hsource htarget hrefusal with ⟨_, _, hgains⟩ | ⟨_, hgains⟩
    · exact ⟨_, hgains⟩
    · exact ⟨_, hgains⟩

theorem countsDepartures_removeEdge (hs : s.Consistent order) (edge : Edge) :
    CountsDepartures s (removeEdge edge s).2 := by
  refine removeEdge_induction (.refl s) fun slot e place he _ => ?_
  have hloses : Loses s (((s.forgetEdge slot e).bumpIf false true).tell (.edgeRemoved edge place)) :=
    (loses_forgetEdge he).told _ _ _
  obtain ⟨_, hedge, _, order', _, hs'⟩ := hloses order hs
  have hslots := contains_edgeSlots hs'
  have hnodes := contains_nodeSlots hs'
  have hversion : (s.forgetEdge slot e).store.version = s.store.version := by
    change (s.store.unlink slot e).version = _
    rw [Store.unlink_eq]
  have hnode : (s.forgetEdge slot e).store.node? = s.store.node? :=
    funext fun _ => node?_forgetEdge
  have hsame : (s.forgetEdge slot e).nodeSlots = s.nodeSlots := by
    ext n
    rw [contains_nodeSlots hs, ← hnode]
    exact hnodes n
  refine .told hversion (iff_of_false nofun (not_not_intro hsame))
    (iff_of_true rfl (ne_of_contains slot ?_ ?_)) (fun n hn => hsame ▸ hn) fun i hi => ?_
  · refine (hslots slot).trans ?_
    change ((s.forgetEdge slot e).store.edge? slot).isSome = false
    rw [edge?_forgetEdge hs.sound, if_pos rfl]
    rfl
  · rw [contains_edgeSlots hs, Store.edge?, he]
    rfl
  · have hi' := (hslots i).symm.trans hi
    rw [Store.edge?_eq, Option.isSome_map, Option.isSome_iff_exists] at hi'
    obtain ⟨x, hx⟩ := hi'
    rw [contains_edgeSlots hs, Store.edge?_eq, hedge i x hx]
    rfl

theorem countsDepartures_removeEach (hs : s.Consistent order) (edges : List Edge) :
    CountsDepartures s (removeEach edges s).2 :=
  hs.removeEach_induction .refl .trans countsDepartures_removeEdge edges

theorem countsDepartures_forgetNode (hs : s.Consistent order) {event : Event}
    (hnode : s.store.node? slot = some node)
    (hs' : (((s.forgetNode slot node).bumpIf true false).tell event).Consistent order') :
    CountsDepartures s (((s.forgetNode slot node).bumpIf true false).tell event) := by
  have hnode' : ∀ n, (s.forgetNode slot node).store.node? n =
      if n = slot then none else s.store.node? n := fun n => node?_forgetNode hs.sound
  refine .told rfl (iff_of_true rfl (ne_of_contains slot ?_ ?_))
    (iff_of_false nofun (not_not_intro rfl)) (fun n hn => ?_) fun i hi => hi
  · refine (contains_nodeSlots hs' slot).trans ?_
    change ((s.forgetNode slot node).store.node? slot).isSome = false
    rw [hnode', if_pos rfl]
    rfl
  · rw [contains_nodeSlots hs, hnode]
    rfl
  · have hn' : ((s.forgetNode slot node).store.node? n).isSome = true :=
      (contains_nodeSlots hs' n).symm.trans hn
    rw [hnode'] at hn'
    rw [contains_nodeSlots hs]
    split at hn'
    · cases hn'
    · exact hn'

theorem countsDepartures_removeNode (hs : s.Consistent order) (node : Node) :
    CountsDepartures s (removeNode node s).2 := by
  refine hs.removeNode_induction (.refl s) (fun slot => countsDepartures_removeEach hs _)
    fun slot s' order' place hdone hs' hnode hbare => ?_
  have hloses : Loses s' (((s'.forgetNode slot node).bumpIf true false).tell
      (.nodeRemoved node place)) := (loses_forgetNode hnode hbare).told _ _ _
  obtain ⟨_, _, hs''⟩ := (hloses order' hs').exists_sublist
  exact hdone.trans (countsDepartures_forgetNode hs' hnode hs'')

/-! ### All at once -/

theorem isEmpty_eq_false_iff {α : Type} {a : Arena α} (h : a.Valid) :
    (!a.isEmpty) = true ↔ IdSet.empty ≠ .ofList a.slots := by
  rw [Arena.isEmpty, h.size_eq, Bool.not_eq_true', beq_eq_false_iff_ne, ne_eq,
    List.length_eq_zero_iff, not_iff_not]
  constructor
  · intro hnil
    rw [hnil]
    rfl
  · intro heq
    refine List.eq_nil_iff_forall_not_mem.mpr fun n hn => ?_
    have hmem : (IdSet.ofList a.slots).contains n = true := by
      rw [IdSet.contains_ofList]
      exact decide_eq_true hn
    rw [← heq, IdSet.contains_empty] at hmem
    cases hmem

theorem countsDepartures_clear (hs : s.Consistent order) : CountsDepartures s (clear s).2 := by
  rw [clear, change_apply]
  refine .told rfl (isEmpty_eq_false_iff hs.sound.nodes_valid)
    (isEmpty_eq_false_iff hs.sound.edges_valid) (fun n hn => ?_) fun i hi => ?_
  · change IdSet.empty.contains n = true at hn
    rw [IdSet.contains_empty] at hn
    cases hn
  · change IdSet.empty.contains i = true at hi
    rw [IdSet.contains_empty] at hi
    cases hi

theorem countsDepartures_clearEdges (hs : s.Consistent order) : CountsDepartures s (clearEdges s).2 := by
  obtain ⟨_, _, _, order', _, hs'⟩ := loses_clearEdges s order hs
  have hslots := contains_nodeSlots hs'
  rw [clearEdges, change_apply] at hslots ⊢
  have hsame : (s.dropAllEdges.withStore fun store =>
      { store with
        nodes := store.nodes.dropEdges
        views := store.views.map (·.clearEdges) }).nodeSlots = s.nodeSlots := by
    ext n
    rw [contains_nodeSlots hs]
    exact (hslots n).trans (congrArg Option.isSome (Store.node?_of_dropEdges rfl))
  refine .told rfl (iff_of_false Bool.false_ne_true (not_not_intro hsame))
    (isEmpty_eq_false_iff hs.sound.edges_valid) (fun n hn => hsame ▸ hn) fun i hi => ?_
  change IdSet.empty.contains i = true at hi
  rw [IdSet.contains_empty] at hi
  cases hi

/-! ### One after the other -/

theorem countsArrivals_addNodes (hs : s.Consistent order) (nodes : List Node) :
    CountsArrivals s (addNodes nodes s).2 :=
  countEach_relates CountsArrivals .refl .trans (fun _ _ ht node =>
    ⟨countsArrivals_addNode ht node, exists_consistent_perform ht (.addNode node)⟩) hs nodes

theorem countsArrivals_addEdges (hs : s.Consistent order) (edges : List Edge) :
    CountsArrivals s (addEdges edges s).2 :=
  countEach_relates CountsArrivals .refl .trans (fun _ _ ht edge =>
    ⟨countsArrivals_addEdge ht edge, exists_consistent_perform ht (.addEdge edge)⟩) hs edges

theorem countsDepartures_removeNodes (hs : s.Consistent order) (nodes : List Node) :
    CountsDepartures s (removeNodes nodes s).2 :=
  countEach_relates CountsDepartures .refl .trans (fun _ _ ht node =>
    ⟨countsDepartures_removeNode ht node, exists_consistent_perform ht (.removeNode node)⟩) hs nodes

theorem countsDepartures_removeEdges (hs : s.Consistent order) (edges : List Edge) :
    CountsDepartures s (removeEdges edges s).2 :=
  countEach_relates CountsDepartures .refl .trans (fun _ _ ht edge =>
    ⟨countsDepartures_removeEdge ht edge, exists_consistent_perform ht (.removeEdge edge)⟩) hs edges

/-! ### Labels -/

theorem countsArrivals_addLabel (label : String) (s : Session) :
    CountsArrivals s (addLabel label s).2 := by
  rw [addLabel, onStore_apply]
  rcases s.store.labels.add label with ⟨answer, labels⟩
  exact .of_eq rfl rfl rfl

theorem countsArrivals_removeLabel (label : String) (s : Session) :
    CountsArrivals s (removeLabel label s).2 := by
  rw [removeLabel]
  simp only [bind_apply, get_apply]
  by_cases hused : 0 < s.edgeCountOf label
  · simp only [hused, if_true]
    exact .refl s
  · simp only [hused, if_false, onStore_apply]
    exact .of_eq rfl rfl rfl

theorem countsArrivals_removeLabelId (id : Int) (s : Session) :
    CountsArrivals s (removeLabelId id s).2 := by
  rw [removeLabelId]
  simp only [bind_apply, get_apply]
  by_cases hused : 0 < s.edgeCountOfId id
  · simp only [hused, if_true]
    exact .refl s
  · simp only [hused, if_false, onStore_apply]
    exact .of_eq rfl rfl rfl

end Session

end PropertyGraph

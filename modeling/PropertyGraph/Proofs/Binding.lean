import PropertyGraph.Proofs.Adjacency
import PropertyGraph.Proofs.Graph.Space
import PropertyGraph.Session.Lookup

/-!
# Handles and the stores they are in

A handle knows which store owns it and in which slot it lies. Several tables have to agree with that:
the slots of all stores, the ids that every store has in use, and the slots that edges keep of their
ends. They agree after any calls on any graphs, in any order, and so every way to look an element up
leads to the same instance.
-/

namespace PropertyGraph

variable {α : Type} {space : GraphSpace} {g : Graph} {s : Session}

/-- How elements of one sort are reached: the home of a handle, what the slots of a store hold, the
slots of the ids in use, and the questions that a store answers. -/
structure Access (α : Type) where
  id : α → ElementId
  home? : Catalog → α → Option Home
  held? : Store → Nat → Option α
  slotOf? : Store → ElementId → Option Nat
  contains : Session → α → Bool
  at? : Session → Int → Except Fault (Option α)
  byId? : Session → ElementId → Option α

namespace Access

def nodes : Access Node where
  id := Node.id
  home? := fun catalog node => catalog.nodeHomes[node]?
  held? := Store.node?
  slotOf? := fun store id => store.nodes.ids[id]?
  contains := Session.containsNode
  at? := Session.nodeAt
  byId? := Session.nodeById?

def edges : Access Edge where
  id := Edge.id
  home? := fun catalog edge => catalog.edgeHomes[edge]?
  held? := Store.edge?
  slotOf? := fun store id => store.edges.ids[id]?
  contains := Session.containsEdge
  at? := Session.edgeAt
  byId? := Session.edgeById?

variable (a : Access α)

def owner? (space : GraphSpace) (x : α) : Option Nat := (a.home? space.catalog x).map (·.store)

def slot? (space : GraphSpace) (x : α) : Option Nat := (a.home? space.catalog x).map (·.slot)

def handleMap (s : Session) : HandleMap α := ⟨a.held? s.store, a.slotOf? s.store, a.home? s.catalog⟩

structure Bound (space : GraphSpace) : Prop where
  /-- A handle is owned by a store exactly if the slot there that it names holds it. -/
  owner_iff : ∀ x g, a.owner? space x = some g.token ↔ ∃ s slot, space.session? g = some s ∧
    a.slot? space x = some slot ∧ a.held? s.store slot = some x
  slot_of_unowned : ∀ x, a.owner? space x = none → a.slot? space x = none
  contains_iff : ∀ g s x, space.session? g = some s →
    (a.contains s x = true ↔ a.owner? space x = some g.token)
  live_once : ∀ x g g' s s', space.session? g = some s → space.session? g' = some s' →
    a.contains s x = true → a.contains s' x = true → g = g'
  /-- Within a store no two elements have the same slot, or the same id. -/
  apart : ∀ g s x y, space.session? g = some s → a.contains s x = true → a.contains s y = true →
    a.slot? space x = a.slot? space y ∨ a.id x = a.id y → x = y
  held_iff : ∀ g s slot x, space.session? g = some s →
    (a.held? s.store slot = some x ↔ a.contains s x = true ∧ a.slot? space x = some slot)
  at_iff : ∀ g s (slot : Int) x, space.session? g = some s → (a.at? s slot = .ok (some x) ↔
    a.contains s x = true ∧ ∃ n : Nat, slot = n ∧ a.slot? space x = some n)
  byId_iff : ∀ g s key x, space.session? g = some s →
    (a.byId? s key = some x ↔ a.contains s x = true ∧ a.id x = key)

/-- What the questions ask of the tables. -/
structure Lawful : Prop where
  contains_iff : ∀ s x, a.contains s x = true ↔
    ∃ slot, a.home? s.catalog x = some ⟨s.store.token, slot⟩ ∧ a.held? s.store slot = some x
  at_iff : ∀ s (slot : Int) x, a.at? s slot = .ok (some x) ↔
    ∃ n : Nat, slot = n ∧ a.held? s.store n = some x
  byId_eq : ∀ s key, a.byId? s key = (a.slotOf? s.store key).bind (a.held? s.store)

/-- The handle maps of all graphs are coherent, and there are no homes elsewhere. -/
structure HandlesCoherent (space : GraphSpace) : Prop where
  token : ∀ g s, space.session? g = some s → s.store.token = g.token
  handleMap : ∀ g s, space.session? g = some s → (a.handleMap s).Coherent a.id g.token
  home : ∀ x home, a.home? space.catalog x = some home → (space.session? ⟨home.store⟩).isSome

variable {a} {x y : α} {slot : Nat}

theorem owner?_eq_some {token : Nat} : a.owner? space x = some token ↔
    ∃ slot, a.home? space.catalog x = some ⟨token, slot⟩ := by
  rw [owner?, Option.map_eq_some_iff]
  constructor
  · rintro ⟨home, hx, rfl⟩
    exact ⟨home.slot, hx⟩
  · rintro ⟨slot, hx⟩
    exact ⟨_, hx, rfl⟩

theorem slot?_of_home {token : Nat} (h : a.home? space.catalog x = some ⟨token, slot⟩) :
    a.slot? space x = some slot := by
  rw [slot?, h, Option.map_some]

namespace HandlesCoherent

theorem home_iff (h : a.HandlesCoherent space) (hs : space.session? g = some s) :
    a.home? space.catalog x = some ⟨g.token, slot⟩ ↔ a.held? s.store slot = some x := by
  rw [← GraphSpace.catalog_of_session? hs]
  exact (h.handleMap g s hs).home_iff x slot

theorem contains_iff (h : a.HandlesCoherent space) (ha : a.Lawful) (hs : space.session? g = some s) :
    a.contains s x = true ↔ ∃ slot, a.home? space.catalog x = some ⟨g.token, slot⟩ := by
  rw [ha.contains_iff, h.token g s hs, GraphSpace.catalog_of_session? hs]
  constructor
  · rintro ⟨slot, hx, _⟩
    exact ⟨slot, hx⟩
  · rintro ⟨slot, hx⟩
    exact ⟨slot, hx, (h.home_iff hs).mp hx⟩

theorem held_iff (h : a.HandlesCoherent space) (ha : a.Lawful) (hs : space.session? g = some s) :
    a.held? s.store slot = some x ↔ a.contains s x = true ∧ a.slot? space x = some slot := by
  rw [h.contains_iff ha hs]
  constructor
  · intro hx
    have hhome := (h.home_iff hs).mpr hx
    exact ⟨⟨slot, hhome⟩, slot?_of_home hhome⟩
  · rintro ⟨⟨i, hi⟩, hslot⟩
    rw [slot?_of_home hi, Option.some.injEq] at hslot
    exact hslot ▸ (h.home_iff hs).mp hi

theorem eq_of_contains (h : a.HandlesCoherent space) (ha : a.Lawful) (hs : space.session? g = some s)
    (hx : a.contains s x = true) (hy : a.contains s y = true)
    (hsame : a.slot? space x = a.slot? space y ∨ a.id x = a.id y) : x = y := by
  obtain ⟨i, hi⟩ := (h.contains_iff ha hs).mp hx
  have hxi := (h.home_iff hs).mp hi
  rcases hsame with hslot | hid
  · rw [slot?_of_home hi] at hslot
    have hyi := (h.held_iff ha hs).mpr ⟨hy, hslot.symm⟩
    rw [hxi, Option.some.injEq] at hyi
    exact hyi
  · obtain ⟨j, hj⟩ := (h.contains_iff ha hs).mp hy
    exact (h.handleMap g s hs).id_unique hxi ((h.home_iff hs).mp hj) hid

theorem byId_iff (h : a.HandlesCoherent space) (ha : a.Lawful) (hs : space.session? g = some s)
    {key : ElementId} : a.byId? s key = some x ↔ a.contains s x = true ∧ a.id x = key := by
  rw [ha.byId_eq, Option.bind_eq_some_iff, h.contains_iff ha hs]
  have hindex := (h.handleMap g s hs).slotOf_iff key
  constructor
  · rintro ⟨slot, hkey, hx⟩
    obtain ⟨y, hy, hid⟩ := (hindex slot).mp hkey
    have hsame : some x = some y := hx.symm.trans hy
    rw [Option.some.injEq] at hsame
    exact ⟨⟨slot, (h.home_iff hs).mpr hx⟩, hsame ▸ hid⟩
  · rintro ⟨⟨slot, hhome⟩, hid⟩
    have hx := (h.home_iff hs).mp hhome
    exact ⟨slot, (hindex slot).mpr ⟨x, hx, hid⟩, hx⟩

theorem bound (h : a.HandlesCoherent space) (ha : a.Lawful) : a.Bound space where
  owner_iff := by
    intro x g
    rw [owner?_eq_some]
    constructor
    · rintro ⟨slot, hx⟩
      obtain ⟨s, hs⟩ := Option.isSome_iff_exists.mp (h.home x _ hx)
      exact ⟨s, slot, hs, slot?_of_home hx, (h.home_iff hs).mp hx⟩
    · rintro ⟨s, slot, hs, _, hx⟩
      exact ⟨slot, (h.home_iff hs).mpr hx⟩
  slot_of_unowned := by
    intro x hx
    rw [owner?, Option.map_eq_none_iff] at hx
    rw [slot?, hx, Option.map_none]
  contains_iff := by
    intro g s x hs
    rw [h.contains_iff ha hs, owner?_eq_some]
  live_once := by
    intro x g g' s s' hs hs' hx hx'
    obtain ⟨slot, hhome⟩ := (h.contains_iff ha hs).mp hx
    obtain ⟨slot', hhome'⟩ := (h.contains_iff ha hs').mp hx'
    rw [hhome, Option.some.injEq, Home.mk.injEq] at hhome'
    exact congrArg Graph.mk hhome'.1
  apart := fun g s x y hs => h.eq_of_contains ha hs
  held_iff := fun g s slot x hs => h.held_iff ha hs
  at_iff := by
    intro g s slot x hs
    rw [ha.at_iff]
    constructor
    · rintro ⟨n, rfl, hn⟩
      obtain ⟨hx, hslot⟩ := (h.held_iff ha hs).mp hn
      exact ⟨hx, n, rfl, hslot⟩
    · rintro ⟨hx, n, rfl, hslot⟩
      exact ⟨n, rfl, (h.held_iff ha hs).mpr ⟨hx, hslot⟩⟩
  byId_iff := fun g s key x hs => h.byId_iff ha hs

end HandlesCoherent

/-! ### Nodes and edges -/

/-- A slot that a caller names is looked up if it is in range; out of range nothing is stored. -/
theorem checkRange_bind_iff {β : Type} {arena : Arena β} {held : Nat → Option α} {slot : Int}
    (hheld : ∀ n, (held n).isSome → (arena.get? n).isSome) :
    (arena.checkRange slot >>= fun n => Except.ok (held n)) = .ok (some x) ↔
      ∃ n : Nat, slot = n ∧ held n = some x := by
  rw [Arena.checkRange]
  constructor
  · intro h
    cases hslot : slot.toNat? with
    | none =>
      rw [hslot] at h
      cases h
    | some n =>
      rw [hslot] at h
      simp only at h
      split at h
      · rw [ok_bind, Except.ok.injEq] at h
        exact ⟨n, Int.mem_toNat?.mp hslot, h⟩
      · cases h
  · rintro ⟨n, rfl, hn⟩
    obtain ⟨y, hy⟩ := Option.isSome_iff_exists.mp (hheld n (by rw [hn]; rfl))
    have hlt := Arena.lt_length_of_get? hy
    rw [Int.mem_toNat?.mpr rfl]
    simp only [if_pos hlt]
    rw [ok_bind, hn]

theorem lawful_nodes : nodes.Lawful where
  contains_iff := fun _ _ => Session.containsNode_iff_nodeSlot?.trans
    (exists_congr fun _ => Session.nodeSlot?_iff)
  at_iff := fun s slot node => checkRange_bind_iff fun n hn => by
    change ((s.store.nodes.get? n).map _).isSome at hn
    rwa [Option.isSome_map] at hn
  byId_eq := fun _ _ => rfl

theorem lawful_edges : edges.Lawful where
  contains_iff := fun _ _ => Session.containsEdge_iff_edgeSlot?.trans
    (exists_congr fun _ => Session.edgeSlot?_iff)
  at_iff := fun s slot edge => checkRange_bind_iff fun i hi => by
    change ((s.store.edges.get? i).map _).isSome at hi
    rwa [Option.isSome_map] at hi
  byId_eq := fun _ _ => rfl

end Access

namespace GraphSpace

open Session

/-- Handles, slots and ids agree for nodes and for edges, and every edge lies between the slots in
which its ends are stored. -/
structure Bound (space : GraphSpace) : Prop where
  nodes : Access.nodes.Bound space
  edges : Access.edges.Bound space
  source : ∀ g s slot e, space.session? g = some s → s.store.edges.get? slot = some e →
    s.containsNode e.edge.source = true ∧ space.catalog.nodeSlot? e.edge.source = some e.source
  target : ∀ g s slot e, space.session? g = some s → s.store.edges.get? slot = some e →
    s.containsNode e.edge.target = true ∧ space.catalog.nodeSlot? e.edge.target = some e.target

theorem Orderly.nodes_coherent (h : Orderly space) : Access.nodes.HandlesCoherent space where
  token := fun g s hs => (h.settled g s hs).token
  handleMap := fun g s hs => (h.settled g s hs).nodes
  home := h.node_home

theorem Orderly.edges_coherent (h : Orderly space) : Access.edges.HandlesCoherent space where
  token := fun g s hs => (h.settled g s hs).token
  handleMap := fun g s hs => (h.settled g s hs).edges
  home := h.edge_home

theorem Orderly.end_bound (h : Orderly space) (hs : space.session? g = some s) {slot : Nat}
    {e : EdgeSlot} (he : s.store.edges.get? slot = some e) (p : Phase) :
    s.containsNode (e.edge.node p.role) = true ∧
      space.catalog.nodeSlot? (e.edge.node p.role) = some (e.ends.get p) := by
  obtain ⟨order, hconsistent⟩ := (h.settled g s hs).consistent
  have hfixed : s.store.fixed? slot = some e.fixed := by rw [Store.fixed?, he, Option.map_some]
  have hnode : s.store.node? (e.ends.get p) = some (e.edge.node p.role) :=
    hconsistent.sound.node?_of_fixed? hfixed p
  exact (h.nodes_coherent.held_iff Access.lawful_nodes hs).mp hnode

theorem History.handles_bound (h : History space) : space.Bound where
  nodes := h.orderly.nodes_coherent.bound Access.lawful_nodes
  edges := h.orderly.edges_coherent.bound Access.lawful_edges
  source := fun _ _ _ _ hs he => h.orderly.end_bound hs he .outgoing
  target := fun _ _ _ _ hs he => h.orderly.end_bound hs he .incoming

def loopedBesideEmpty : GraphSpace :=
  let opened := (Graph.open_ {} (Graph.open_ {} {}).2).2
  let lone := (Graph.run ⟨0⟩ (.change (Command.addNode hub).perform) opened).2
  (Graph.run ⟨0⟩ (.change (Command.addEdge selfEdge).perform) lone).2

theorem history_loopedBesideEmpty : History loopedBesideEmpty :=
  .called _ ⟨0⟩ (.addEdge selfEdge) (.called _ ⟨0⟩ (.addNode hub) (.opened _ {} (.opened _ {} .empty)))

theorem session?_loopedBesideEmpty : loopedBesideEmpty.session? ⟨0⟩ = some looped :=
  session?_run (session?_run (s := opened) rfl _) _

theorem handles_bound_loopedBesideEmpty :
    History loopedBesideEmpty ∧ loopedBesideEmpty.session? ⟨0⟩ = some looped ∧
      loopedBesideEmpty.Bound ∧ looped.edgeAt 0 = .ok (some selfEdge) ∧
      looped.edgeById? (.int 2) = some selfEdge := by
  have hbound := history_loopedBesideEmpty.handles_bound
  have hs := session?_loopedBesideEmpty
  have hheld : looped.store.edge? 0 = some selfEdge := by
    rw [Store.edge?, get?_looped.2]
    rfl
  obtain ⟨hin, hslot⟩ := (hbound.edges.held_iff ⟨0⟩ looped 0 selfEdge hs).mp hheld
  exact ⟨history_loopedBesideEmpty, hs, hbound,
    (hbound.edges.at_iff ⟨0⟩ looped 0 selfEdge hs).mpr ⟨hin, 0, rfl, hslot⟩,
    (hbound.edges.byId_iff ⟨0⟩ looped (.int 2) selfEdge hs).mpr ⟨hin, rfl⟩⟩

end GraphSpace

end PropertyGraph

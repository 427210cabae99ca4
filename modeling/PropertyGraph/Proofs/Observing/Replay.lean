import Mathlib.Data.Finset.Basic
import PropertyGraph.Proofs.Adjacency
import PropertyGraph.Proofs.Observing.Counting

/-!
# Replaying what a listener heard

Someone who only hears the events can keep a replica of the nodes and edges. An event can come at the
wrong time: an element may be added that is there, or removed that is not, an edge may come before
its ends or a node go before its edges. A store never sends such an event, whether a call is carried
out, refused or stopped midway, and what is heard keeps the replica in step with what is stored.
-/

namespace PropertyGraph

/-! ### Replicas -/

/-- The nodes and edges that someone knows of who only hears the events. -/
structure Replica where
  nodes : Finset Node := ∅
  edges : Finset Edge := ∅

namespace Replica

variable {m m' : Replica} {s s' : Session} {log log' : List Event} {node : Node} {edge : Edge}

/-- What an event makes of a replica. -/
def hear (m : Replica) : Event → Replica
  | .nodeAdded node _ => { m with nodes := insert node m.nodes }
  | .nodeRemoved node _ => { m with nodes := m.nodes.erase node }
  | .edgeAdded edge _ => { m with edges := insert edge m.edges }
  | .edgeRemoved edge _ => { m with edges := m.edges.erase edge }
  | .viewDestroyed _ _ => m
  | .edgesCleared => { m with edges := ∅ }
  | .cleared => {}

def replay (m : Replica) (log : List Event) : Replica := log.foldl hear m

/-- The event comes at the right time: what is added is not there, what is removed is, an edge comes
after its ends, and a node goes after its edges. -/
def Timely (m : Replica) : Event → Prop
  | .nodeAdded node _ => node ∉ m.nodes
  | .nodeRemoved node _ =>
    node ∈ m.nodes ∧ ∀ edge ∈ m.edges, edge.source ≠ node ∧ edge.target ≠ node
  | .edgeAdded edge _ => edge ∉ m.edges ∧ edge.source ∈ m.nodes ∧ edge.target ∈ m.nodes
  | .edgeRemoved edge _ => edge ∈ m.edges
  | .viewDestroyed _ _ | .edgesCleared | .cleared => True

def InTime (m : Replica) : List Event → Prop
  | [] => True
  | event :: rest => m.Timely event ∧ (m.hear event).InTime rest

theorem replay_append : m.replay (log ++ log') = (m.replay log).replay log' := List.foldl_append

namespace InTime

theorem append (h : m.InTime log) (h' : (m.replay log).InTime log') : m.InTime (log ++ log') := by
  induction log generalizing m with
  | nil => exact h'
  | cons event rest ih => exact ⟨h.1, ih h.2 h'⟩

theorem timely {event : Event} (h : m.InTime (log ++ event :: log')) :
    (m.replay log).Timely event := by
  induction log generalizing m with
  | nil => exact h.1
  | cons first rest ih => exact ih h.2

end InTime

theorem inTime_of_views (hviews : ∀ event ∈ log, event.isOfView = true) :
    m.InTime log ∧ m.replay log = m := by
  induction log with
  | nil => exact ⟨trivial, rfl⟩
  | cons event rest ih =>
    obtain ⟨hrest, hsame⟩ := ih fun other hother => hviews other (List.mem_cons_of_mem event hother)
    cases event with
    | viewDestroyed view destroyed => exact ⟨⟨trivial, hrest⟩, hsame⟩
    | _ => cases hviews _ List.mem_cons_self

/-- The replica has the elements that are stored, and no others. -/
structure Shows (m : Replica) (s : Session) : Prop where
  node_iff : ∀ node, node ∈ m.nodes ↔ ∃ n, s.store.node? n = some node
  edge_iff : ∀ edge, edge ∈ m.edges ↔ ∃ i, s.store.edge? i = some edge

end Replica

/-! ### Slots that are taken and freed -/

section Slots

variable {α : Type} {f f' : Nat → Option α} {slot : Nat} {x : α}

theorem exists_slot_of_taken (hfree : f slot = none)
    (hf' : ∀ n, f' n = if n = slot then some x else f n) (y : α) :
    (∃ n, f' n = some y) ↔ y = x ∨ ∃ n, f n = some y := by
  constructor
  · rintro ⟨n, hn⟩
    rw [hf'] at hn
    split at hn
    · exact .inl (Option.some.inj hn).symm
    · exact .inr ⟨n, hn⟩
  · rintro (rfl | ⟨n, hn⟩)
    · exact ⟨slot, by rw [hf', if_pos rfl]⟩
    · have hne : n ≠ slot := by
        rintro rfl
        rw [hfree] at hn
        cases hn
      exact ⟨n, by rw [hf', if_neg hne, hn]⟩

theorem exists_slot_of_freed (hx : f slot = some x) (honly : ∀ n, f n = some x → n = slot)
    (hf' : ∀ n, f' n = if n = slot then none else f n) (y : α) :
    (∃ n, f' n = some y) ↔ y ≠ x ∧ ∃ n, f n = some y := by
  constructor
  · rintro ⟨n, hn⟩
    rw [hf'] at hn
    split at hn
    · cases hn
    · next hne =>
      refine ⟨?_, n, hn⟩
      rintro rfl
      exact hne (honly n hn)
  · rintro ⟨hne, n, hn⟩
    have hslot : n ≠ slot := by
      rintro rfl
      rw [hx, Option.some.injEq] at hn
      exact hne hn.symm
    exact ⟨n, by rw [hf', if_neg hslot, hn]⟩

end Slots

namespace Session

open PropertyGraph.Action

variable {s s' s'' : Session} {order : List Nat} {node : Node} {edge : Edge} {slot : Nat}
  {listener : Listener} {event : Event} {edges : List Edge} {before : List Event}

/-! ### What one call reports -/

/-- A listener that is registered once hears between two sessions what turns a replica of the one into a replica of the other. -/
structure Reports (listener : Listener) (s s' : Session) : Prop where
  count_eq : s'.store.listeners.count listener = s.store.listeners.count listener
  exists_log : s.store.listeners.count listener = 1 → ∃ log : List Event,
    (s'.catalog.heard listener).toList = (s.catalog.heard listener).toList ++ log ∧
      ∀ m : Replica, m.Shows s → m.InTime log ∧ (m.replay log).Shows s'

namespace Reports

theorem of_aside (h : Aside s s') : Reports listener s s' := by
  refine ⟨by rw [h.listeners], fun _ => ?_⟩
  obtain ⟨log, hlog, hviews⟩ := h.heard listener
  refine ⟨log, hlog, fun m hm => ?_⟩
  obtain ⟨htime, hsame⟩ := m.inTime_of_views hviews
  rw [hsame]
  refine ⟨htime, fun node => ?_, fun edge => ?_⟩
  · simp only [hm.node_iff, Store.node?, h.nodes]
  · simp only [hm.edge_iff, Store.edge?, h.edges]

theorem refl (s : Session) : Reports listener s s := of_aside (.refl s)

theorem relisted {listeners : List Listener}
    (hcount : listeners.count listener = s.store.listeners.count listener) :
    Reports listener s (s.withStore fun store => { store with listeners }) :=
  ⟨hcount, fun _ => ⟨[], (List.append_nil _).symm, fun _ hm => ⟨trivial, hm.node_iff, hm.edge_iff⟩⟩⟩

theorem trans (h : Reports listener s s') (h' : Reports listener s' s'') :
    Reports listener s s'' := by
  refine ⟨h'.count_eq.trans h.count_eq, fun hcount => ?_⟩
  obtain ⟨log, hlog, hreplica⟩ := h.exists_log hcount
  obtain ⟨log', hlog', hreplica'⟩ := h'.exists_log (h.count_eq.trans hcount)
  refine ⟨log ++ log', by rw [hlog', hlog, List.append_assoc], fun m hm => ?_⟩
  obtain ⟨htime, hshows⟩ := hreplica m hm
  obtain ⟨htime', hshows'⟩ := hreplica' _ hshows
  exact ⟨htime.append htime', Replica.replay_append ▸ hshows'⟩

theorem told (hquiet : listener.quiet = false) (hlisteners : s'.store.listeners = s.store.listeners)
    (hevents : s'.catalog.events = s.catalog.events) {nodes edges : Bool}
    (hhear : ∀ m : Replica, m.Shows s → m.Timely event ∧ (m.hear event).Shows s') :
    Reports listener s ((s'.bumpIf nodes edges).tell event) := by
  refine ⟨congrArg (·.count listener) hlisteners, fun hcount => ⟨[event], ?_, fun m hm => ?_⟩⟩
  · refine (Catalog.heard_foldl_tell s'.store.listeners s'.catalog).trans ?_
    rw [hlisteners, hcount, hquiet, Catalog.heard_congr hevents]
    rfl
  · obtain ⟨htimely, hshows⟩ := hhear m hm
    exact ⟨⟨htimely, trivial⟩, hshows.node_iff, hshows.edge_iff⟩

end Reports

section Calls

variable (hquiet : listener.quiet = false)
include hquiet

theorem reports_addNode (hs : s.Consistent order) (node : Node) :
    Reports listener s (addNode node s).2 := by
  rcases addNode_cases hs node with
    ⟨answer, h⟩ | ⟨slot, nodes, place, hhome, _, _, hfree, hget, _, h⟩
  · rw [h]
    exact .refl s
  · have hfree' : s.store.node? slot = none := by rw [Store.node?, hfree, Option.map_none]
    have hnode : ∀ n, ({ s.store with nodes } : Store).node? n =
        if n = slot then some node else s.store.node? n := by
      intro n
      change (nodes.get? n).map _ = _
      rw [hget]
      split <;> rfl
    rw [h]
    refine .told hquiet ?_ ?_ fun m hm => ?_
    · rfl
    · rfl
    have hnew : node ∉ m.nodes := by
      rw [hm.node_iff]
      rintro ⟨n, hn⟩
      rw [hs.nodeSlot?_eq hn] at hhome
      cases hhome
    refine ⟨hnew, fun other => ?_, hm.edge_iff⟩
    refine Finset.mem_insert.trans ?_
    rw [hm.node_iff]
    exact (exists_slot_of_taken hfree' hnode other).symm

theorem reports_addEdge (hs : s.Consistent order) (edge : Edge) :
    Reports listener s (addEdge edge s).2 := by
  rcases addEdge_cases edge s with ⟨fault, h⟩ | ⟨h, _⟩ | ⟨source, target, hhome, hsource, htarget, _, h⟩
  · rw [h]
    exact .refl s
  · rw [h]
    exact .refl s
  · obtain ⟨labels, _, _, ⟨fault, hplaced⟩ |
      ⟨slot, label, arena, place, t, _, _, _, hfree, hget, hlink, hplaced⟩⟩ :=
        placeEdge_run hs edge source target
    · -- The label of an edge that is refused may stay behind, but nobody is told of labels.
      rw [h, hplaced]
      exact .of_aside (.of_unheard ⟨rfl, rfl, rfl, rfl, rfl⟩ rfl rfl)
    · have hfree' : s.store.edge? slot = none := by rw [Store.edge?, hfree, Option.map_none]
      have hnode : ∀ n, t.node? n = s.store.node? n := by
        intro n
        rw [hlink, Store.node?_link]
        rfl
      have hedge : ∀ i, t.edge? i = if i = slot then some edge else s.store.edge? i := by
        intro i
        rw [hlink, Store.edge?_eq, Store.fixed?_link_alloc hget, Store.edge?_eq]
        split <;> rfl
      have hlisteners : t.listeners = s.store.listeners := by rw [hlink, Store.link_eq]
      rw [h, hplaced]
      refine .told hquiet ?_ ?_ fun m hm => ?_
      · exact hlisteners
      · rfl
      have hends : edge ∉ m.edges ∧ edge.source ∈ m.nodes ∧ edge.target ∈ m.nodes := by
        rw [hm.edge_iff, hm.node_iff, hm.node_iff]
        refine ⟨?_, ⟨source, node?_of_endSlot hsource⟩, ⟨target, node?_of_endSlot htarget⟩⟩
        rintro ⟨i, hi⟩
        rw [hs.edgeSlot?_eq hi] at hhome
        cases hhome
      refine ⟨hends, fun node => ?_, fun other => ?_⟩
      · refine (hm.node_iff node).trans (exists_congr fun n => ?_)
        rw [hnode]
      · refine Finset.mem_insert.trans ?_
        rw [hm.edge_iff]
        exact (exists_slot_of_taken hfree' hedge other).symm

theorem reports_removeEdge (hs : s.Consistent order) (edge : Edge) :
    Reports listener s (removeEdge edge s).2 := by
  refine removeEdge_induction (.refl s) fun slot e place he heq => ?_
  subst heq
  have hslot : s.store.edge? slot = some e.edge := Store.edge?_eq_some he
  have hedge : ∀ i, (s.forgetEdge slot e).store.edge? i =
      if i = slot then none else s.store.edge? i := fun i => edge?_forgetEdge hs.sound
  have hlisteners : (s.store.unlink slot e).listeners = s.store.listeners := by rw [Store.unlink_eq]
  refine .told hquiet ?_ ?_ fun m hm => ?_
  · exact hlisteners
  · rfl
  have hthere : e.edge ∈ m.edges := (hm.edge_iff e.edge).mpr ⟨slot, hslot⟩
  refine ⟨hthere, fun node => ?_, fun other => ?_⟩
  · refine (hm.node_iff node).trans (exists_congr fun n => ?_)
    rw [node?_forgetEdge]
  · refine Finset.mem_erase.trans ?_
    rw [hm.edge_iff]
    exact (exists_slot_of_freed hslot (fun i hi => hs.edge_unique hi hslot) hedge other).symm

theorem reports_removeEach (hs : s.Consistent order) (edges : List Edge) :
    Reports listener s (removeEach edges s).2 :=
  hs.removeEach_induction .refl .trans (reports_removeEdge hquiet) edges

theorem reports_forgetNode (hs : s.Consistent order) (hnode : s.store.node? slot = some node)
    (hbare : ∀ i x p, s.store.fixed? i = some x → x.2.1.get p ≠ slot) (place : Option Nat) :
    Reports listener s
      (((s.forgetNode slot node).bumpIf true false).tell (.nodeRemoved node place)) := by
  have hnode' : ∀ n, (s.forgetNode slot node).store.node? n =
      if n = slot then none else s.store.node? n := fun n => node?_forgetNode hs.sound
  refine .told hquiet ?_ ?_ fun m hm => ?_
  · rfl
  · rfl
  have hclear : node ∈ m.nodes ∧ ∀ edge ∈ m.edges, edge.source ≠ node ∧ edge.target ≠ node := by
    refine ⟨(hm.node_iff node).mpr ⟨slot, hnode⟩, fun edge hedge => ?_⟩
    obtain ⟨i, hi⟩ := (hm.edge_iff edge).mp hedge
    rw [Store.edge?_eq, Option.map_eq_some_iff] at hi
    obtain ⟨x, hx, rfl⟩ := hi
    have hend : ∀ p : Phase, x.1.node p.role ≠ node := by
      intro p heq
      have hstored := hs.sound.node?_of_fixed? hx p
      rw [heq] at hstored
      exact hbare i x p hx (hs.node_unique hstored hnode)
    exact ⟨hend .outgoing, hend .incoming⟩
  refine ⟨hclear, fun other => ?_, hm.edge_iff⟩
  refine Finset.mem_erase.trans ?_
  rw [hm.node_iff]
  exact (exists_slot_of_freed hnode (fun n hn => hs.node_unique hn hnode) hnode' other).symm

theorem reports_removeNode (hs : s.Consistent order) (node : Node) :
    Reports listener s (removeNode node s).2 := by
  exact hs.removeNode_induction (.refl s) (fun slot => reports_removeEach hquiet hs _)
    fun _ _ _ place hdone hs' hnode hbare =>
      hdone.trans (reports_forgetNode hquiet hs' hnode hbare place)

theorem reports_clear (s : Session) : Reports listener s (clear s).2 := by
  rw [clear, change_apply]
  refine .told hquiet ?_ ?_ fun m hm => ⟨?_, fun node => ?_, fun edge => ?_⟩
  · rfl
  · have hedges : s.dropAllEdges.catalog.events = s.catalog.events :=
      Catalog.events_foldl (f := Catalog.unbindEdge) (fun _ _ => rfl) s.store.edges.edges s.catalog
    refine Eq.trans ?_ hedges
    exact Catalog.events_foldl (f := Catalog.unbindNode) (fun _ _ => rfl) s.store.nodes.nodes
      s.dropAllEdges.catalog
  · trivial
  · refine iff_of_false (Finset.notMem_empty node) ?_
    rintro ⟨n, hn⟩
    cases (Store.node?_of_clear (t := s.store.nodes) rfl).symm.trans hn
  · refine iff_of_false (Finset.notMem_empty edge) ?_
    rintro ⟨i, hi⟩
    rw [Store.edge?_eq] at hi
    cases (congrArg _ (Store.fixed?_of_clear (t := s.store.edges) rfl)).symm.trans hi

theorem reports_clearEdges (s : Session) : Reports listener s (clearEdges s).2 := by
  rw [clearEdges, change_apply]
  refine .told hquiet ?_ ?_ fun m hm => ⟨?_, fun node => ?_, fun edge => ?_⟩
  · rfl
  · exact Catalog.events_foldl (f := Catalog.unbindEdge) (fun _ _ => rfl) s.store.edges.edges s.catalog
  · trivial
  · refine (hm.node_iff node).trans (exists_congr fun n => ?_)
    exact Eq.congr_left (Store.node?_of_dropEdges (t := s.store) rfl).symm
  · refine iff_of_false (Finset.notMem_empty edge) ?_
    rintro ⟨i, hi⟩
    rw [Store.edge?_eq] at hi
    cases (congrArg _ (Store.fixed?_of_clear (t := s.store.edges) rfl)).symm.trans hi

theorem reports_addNodes (hs : s.Consistent order) (nodes : List Node) :
    Reports listener s (addNodes nodes s).2 :=
  countEach_relates (Reports listener) .refl .trans (fun _ _ ht node =>
    ⟨reports_addNode hquiet ht node, exists_consistent_perform ht (.addNode node)⟩) hs nodes

theorem reports_removeNodes (hs : s.Consistent order) (nodes : List Node) :
    Reports listener s (removeNodes nodes s).2 :=
  countEach_relates (Reports listener) .refl .trans (fun _ _ ht node =>
    ⟨reports_removeNode hquiet ht node, exists_consistent_perform ht (.removeNode node)⟩) hs nodes

theorem reports_addEdges (hs : s.Consistent order) (edges : List Edge) :
    Reports listener s (addEdges edges s).2 :=
  countEach_relates (Reports listener) .refl .trans (fun _ _ ht edge =>
    ⟨reports_addEdge hquiet ht edge, exists_consistent_perform ht (.addEdge edge)⟩) hs edges

theorem reports_removeEdges (hs : s.Consistent order) (edges : List Edge) :
    Reports listener s (removeEdges edges s).2 :=
  countEach_relates (Reports listener) .refl .trans (fun _ _ ht edge =>
    ⟨reports_removeEdge hquiet ht edge, exists_consistent_perform ht (.removeEdge edge)⟩) hs edges

theorem reports_perform (hs : s.Consistent order) (command : Command)
    (hregister : command ≠ .registerListener listener)
    (hunregister : command ≠ .unregisterListener listener) :
    Reports listener s (command.perform s) := by
  cases command with
  | addNode node => exact reports_addNode hquiet hs node
  | removeNode node => exact reports_removeNode hquiet hs node
  | addEdge edge => exact reports_addEdge hquiet hs edge
  | removeEdge edge => exact reports_removeEdge hquiet hs edge
  | addNodes nodes => exact reports_addNodes hquiet hs nodes
  | removeNodes nodes => exact reports_removeNodes hquiet hs nodes
  | retainNodes keep => exact reports_removeNodes hquiet hs _
  | addEdges edges => exact reports_addEdges hquiet hs edges
  | removeEdges edges => exact reports_removeEdges hquiet hs edges
  | retainEdges keep => exact reports_removeEdges hquiet hs _
  | clear => exact reports_clear hquiet s
  | clearEdges => exact reports_clearEdges hquiet s
  | registerListener other =>
    have hne : other ≠ listener := by
      rintro rfl
      exact hregister rfl
    refine .relisted ?_
    rw [List.count_append, List.count_singleton, if_neg (by simpa using hne), Nat.add_zero]
  | unregisterListener other =>
    have hne : listener ≠ other := by
      rintro rfl
      exact hunregister rfl
    refine .relisted ?_
    exact List.count_filter (by simpa using hne)
  | _ => exact .of_aside (aside_perform _ s rfl)

end Calls

/-! ### Listening to a store -/

/-- A store without elements on which a listener is registered once, and what becomes of it: calls
are made, and between them things happen elsewhere that the listener hears nothing of. It had heard
the given events before. -/
inductive Listening (listener : Listener) (before : List Event) : Session → Prop
  | registered (s : Session) (edges : List Edge) (h : History s edges)
    (hnodes : ∀ n, s.store.node? n = none) (hedges : ∀ i, s.store.edge? i = none)
    (hnew : listener ∉ s.store.listeners) (hbefore : (s.catalog.heard listener).toList = before) :
    Listening listener before ((Command.registerListener listener).perform s)
  | performed (s : Session) (command : Command) (h : Listening listener before s)
    (hregister : command ≠ .registerListener listener)
    (hunregister : command ≠ .unregisterListener listener) :
    Listening listener before (command.perform s)
  | elsewhere (s : Session) (catalog : Catalog) (h : Listening listener before s)
    (hnodes : ∀ (node : Node) n, s.catalog.nodeHomes[node]? = some ⟨s.store.token, n⟩ →
      catalog.nodeHomes[node]? = some ⟨s.store.token, n⟩)
    (hedges : ∀ (edge : Edge) i, s.catalog.edgeHomes[edge]? = some ⟨s.store.token, i⟩ →
      catalog.edgeHomes[edge]? = some ⟨s.store.token, i⟩)
    (hheard : catalog.heard listener = s.catalog.heard listener) :
    Listening listener before { s with catalog }

namespace Listening

theorem exists_history (h : Listening listener before s) : ∃ edges, History s edges := by
  induction h with
  | registered s edges h => exact ⟨_, h.performed s edges (.registerListener listener)⟩
  | performed s command _ _ _ ih =>
    obtain ⟨edges, h⟩ := ih
    exact ⟨_, h.performed s edges command⟩
  | elsewhere s catalog _ hnodes hedges _ ih =>
    obtain ⟨edges, h⟩ := ih
    exact ⟨edges, h.elsewhere s edges catalog hnodes hedges⟩

theorem count_eq_one (hquiet : listener.quiet = false) (h : Listening listener before s) :
    s.store.listeners.count listener = 1 := by
  induction h with
  | registered s edges h _ _ hnew =>
    change (s.store.listeners ++ [listener]).count listener = 1
    rw [List.count_append, List.count_eq_zero.mpr hnew, List.count_singleton_self]
  | performed s command h hregister hunregister ih =>
    obtain ⟨edges, hhistory⟩ := h.exists_history
    obtain ⟨order, hrecorded⟩ := hhistory.recorded
    have hreports := reports_perform hquiet hrecorded.consistent command hregister hunregister
    exact hreports.count_eq.trans ih
  | elsewhere s catalog _ _ _ _ ih => exact ih

/-- What the listener has heard since it was registered, replayed on an empty replica, shows what is
stored, and every event came at the right time. -/
theorem replay_shows (hquiet : listener.quiet = false) (h : Listening listener before s) :
    ∃ log : List Event, (s.catalog.heard listener).toList = before ++ log ∧
      (Replica.replay {} log).Shows s ∧
      ∀ earlier event later, log = earlier ++ event :: later →
        (Replica.replay {} earlier).Timely event := by
  have hreplayed : ∃ log : List Event, (s.catalog.heard listener).toList = before ++ log ∧
      (Replica.replay {} log).Shows s ∧ Replica.InTime {} log := by
    induction h with
    | registered s edges h hnodes hedges hnew hbefore =>
      refine ⟨[], hbefore.trans (List.append_nil before).symm, ⟨fun node => ?_, fun edge => ?_⟩, trivial⟩
      · refine iff_of_false (Finset.notMem_empty node) ?_
        rintro ⟨n, hn⟩
        cases (hnodes n).symm.trans hn
      · refine iff_of_false (Finset.notMem_empty edge) ?_
        rintro ⟨i, hi⟩
        cases (hedges i).symm.trans hi
    | performed s command h hregister hunregister ih =>
      obtain ⟨log, hlog, hshows, htime⟩ := ih
      obtain ⟨edges, hhistory⟩ := h.exists_history
      obtain ⟨order, hrecorded⟩ := hhistory.recorded
      have hreports := reports_perform hquiet hrecorded.consistent command hregister hunregister
      obtain ⟨news, hnews, hreplica⟩ := hreports.exists_log (h.count_eq_one hquiet)
      obtain ⟨htime', hshows'⟩ := hreplica _ hshows
      refine ⟨log ++ news, ?_, Replica.replay_append ▸ hshows', htime.append htime'⟩
      rw [hnews, hlog, List.append_assoc]
    | elsewhere s catalog _ _ _ hheard ih =>
      obtain ⟨log, hlog, hshows, htime⟩ := ih
      exact ⟨log, (congrArg Array.toList hheard).trans hlog, ⟨hshows.node_iff, hshows.edge_iff⟩, htime⟩
  obtain ⟨log, hlog, hshows, htime⟩ := hreplayed
  refine ⟨log, hlog, hshows, fun earlier event later hsplit => ?_⟩
  rw [hsplit] at htime
  exact htime.timely

end Listening

def exampleListener : Listener := { serial := 9, quiet := false }

/-- A node with a loop came and went while the listener was there. -/
def listened : Session :=
  (Command.removeNode hub).perform ((Command.addEdge selfEdge).perform ((Command.addNode hub).perform
    ((Command.registerListener exampleListener).perform opened)))

theorem listening_listened : Listening exampleListener [] listened := by
  have hregistered : Listening exampleListener []
      ((Command.registerListener exampleListener).perform opened) := by
    refine .registered opened [] (.opened 0 {} _ {} rfl) (node?_empty 0 {}) (edge?_empty 0 {})
      List.not_mem_nil ?_
    have hsilent : opened.catalog.heard exampleListener = #[] := Std.HashMap.getD_empty
    rw [hsilent]
  exact .performed _ (.removeNode hub) (.performed _ (.addEdge selfEdge)
    (.performed _ (.addNode hub) hregistered nofun nofun) nofun nofun) nofun nofun

theorem replay_shows_listened : exampleListener.quiet = false ∧ Listening exampleListener [] listened ∧
    ∃ log : List Event, (listened.catalog.heard exampleListener).toList = [] ++ log ∧
      (Replica.replay {} log).Shows listened ∧
      ∀ earlier event later, log = earlier ++ event :: later →
        (Replica.replay {} earlier).Timely event :=
  ⟨rfl, listening_listened, Listening.replay_shows rfl listening_listened⟩

end Session

end PropertyGraph

import PropertyGraph.Proofs.Reinsertion
import PropertyGraph.Proofs.Walks.FoldedRemoval

/-!
# The edges at a node

Where a node is removed, or taken out of a view, the edges at it are read off its chains at once: all
chains of outgoing edges, then all of incoming ones but for the loops. A walk both ways around the node
goes along the same chains, with a cursor that is asked edge by edge. Neither is bounded by anything
but the chains; these come to an end in every store, and both find the same edges in the same order,
except that the walk meets a loop again where it comes in.
-/

namespace PropertyGraph

namespace Store

variable {s : Store} {order : List Nat} {N : NodeSlot} {p : Phase} {n : Nat}
  {heads : List (Option Nat)} {found found' : List (Nat × EdgeSlot)}

/-! ### Reading without a bound -/

/-- Reading a chain from a slot on, from edge to edge until there is none, finds the listed edges. -/
inductive Reads (s : Store) (p : Phase) : Option Nat → List (Nat × EdgeSlot) → Prop where
  | ended (start : Option Nat) (h : start.bind s.edges.get? = none) : Reads s p start []
  | edge (slot : Nat) (e : EdgeSlot) (rest : List (Nat × EdgeSlot))
    (he : s.edges.get? slot = some e) (h : Reads s p (e.next? p) rest) :
    Reads s p (some slot) ((slot, e) :: rest)

/-- Reading chain after chain finds the listed edges. -/
inductive ReadsAll (s : Store) (p : Phase) :
    List (Option Nat) → List (Nat × EdgeSlot) → Prop where
  | nil : ReadsAll s p [] []
  | cons (head : Option Nat) (heads : List (Option Nat)) (chain rest : List (Nat × EdgeSlot))
    (h : s.Reads p head chain) (hrest : ReadsAll s p heads rest) :
    ReadsAll s p (head :: heads) (chain ++ rest)

/-- Reading all chains of a node, and leaving the loops out of the incoming ones, finds the edges in the
listed slots. -/
def ReadsIncident (s : Store) (N : NodeSlot) (slots : List Nat) : Prop :=
  ∃ out back, s.ReadsAll .outgoing N.heads.outgoing.toList out ∧
    s.ReadsAll .incoming N.heads.incoming.toList back ∧
    slots = out.map (·.1) ++ (back.filter fun (_, e) => !e.isLoop).map (·.1)

theorem Reads.unique {start : Option Nat} (h : s.Reads p start found)
    (h' : s.Reads p start found') : found' = found := by
  induction h generalizing found' with
  | ended start hnone =>
    cases h' with
    | ended => rfl
    | edge slot e rest he _ =>
      rw [Option.bind_some, he] at hnone
      cases hnone
  | edge slot e rest he _ ih =>
    cases h' with
    | ended _ hnone =>
      rw [Option.bind_some, he] at hnone
      cases hnone
    | edge _ e' rest' he' h' =>
      rw [he, Option.some.injEq] at he'
      subst he'
      rw [ih h']

theorem reads_chainFrom {prev start : Option Nat} {l : List Nat} {steps : Nat}
    (h : Linked (s.link? p) prev start l) (hsteps : l.length ≤ steps) :
    s.Reads p start (s.chainFrom p steps start) := by
  -- What carries the induction is the rest of the chain: a chain that ran into itself would have none.
  induction l generalizing prev start steps with
  | nil =>
    obtain rfl : start = none := h
    rw [chainFrom_none]
    exact .ended none rfl
  | cons slot rest ih =>
    obtain ⟨rfl, link, hlink, _, hrest⟩ := h
    obtain ⟨e, he, rfl⟩ := Option.map_eq_some_iff.mp hlink
    cases steps with
    | zero => cases hsteps
    | succ steps =>
      rw [chainFrom, he]
      exact .edge slot e _ he (ih hrest (Nat.le_of_succ_le_succ hsteps))

theorem reads_head (hs : s.Sound order) (hN : s.nodes.get? n = some N) {head : Option Nat}
    (hhead : head ∈ (N.heads.get p).toList) :
    s.Reads p head (s.chainFrom p s.edges.arena.length head) := by
  obtain ⟨label, hlabel⟩ := Array.mem_iff_getElem?.mp (Array.mem_toList_iff.mp hhead)
  have hlinked := hs.chained p n N label hN
  rw [NodeSlot.head?, hlabel, Option.join_some] at hlinked
  exact reads_chainFrom hlinked
    ((List.length_filter_le _ _).trans (length_le hs.nodup hs.mem_iff_get?))

theorem readsAll_iff {read : Option Nat → List (Nat × EdgeSlot)}
    (h : ∀ head ∈ heads, s.Reads p head (read head)) :
    s.ReadsAll p heads found ↔ found = heads.flatMap read := by
  induction heads generalizing found with
  | nil =>
    constructor
    · rintro ⟨⟩
      rfl
    · rintro rfl
      exact .nil
  | cons head heads ih =>
    obtain ⟨hhead, hheads⟩ := List.forall_mem_cons.mp h
    rw [List.flatMap_cons]
    constructor
    · rintro (_ | ⟨_, _, chain, rest, hchain, hrest⟩)
      rw [hhead.unique hchain, (ih hheads).mp hrest]
    · rintro rfl
      exact .cons head heads _ _ hhead ((ih hheads).mpr rfl)

theorem readsIncident_iff (hs : s.Sound order) (hN : s.nodes.get? n = some N) {slots : List Nat} :
    s.ReadsIncident N slots ↔ slots = s.incident N := by
  have hchains : ∀ (p : Phase) found,
      s.ReadsAll p (N.heads.get p).toList found ↔ found = s.chains N p := fun p found =>
    readsAll_iff fun head hhead => reads_head hs hN hhead
  constructor
  · rintro ⟨out, back, hout, hback, rfl⟩
    rw [(hchains .outgoing out).mp hout, (hchains .incoming back).mp hback]
    rfl
  · rintro rfl
    exact ⟨_, _, (hchains .outgoing _).mpr rfl, (hchains .incoming _).mpr rfl, rfl⟩

/-! ### Reading along the course of a walk -/

theorem map_fst_chains (hs : s.Sound order) (hN : s.nodes.get? n = some N) (p : Phase) :
    (s.chains N p).map (·.1) = s.course order p n (s.labelIds none) := by
  have hall : s.chains N p = s.chainsWithin N p 0 (N.heads.get p).size := by
    rw [chainsWithin, ← Array.length_toList, List.take_length, List.drop_zero, chains]
  rw [hall, map_fst_chainsWithin hs hN]
  refine course_congr List.pairwise_lt_range' hs.labels_sound.valid.toLaid.pairwise_lt_slots
    fun label hfull => ?_
  obtain ⟨hsize, hregistered⟩ := label_of_chain hs hN hfull
  refine iff_of_true (List.mem_range'_1.mpr ?_) hregistered
  omega

/-- Of the course of a walk both ways, what is read lacks the loops of the second half. -/
theorem incident_eq (hs : s.Sound order) (hN : s.nodes.get? n = some N) :
    s.incident N = s.course order .outgoing n (s.labelIds none) ++
      (s.course order .incoming n (s.labelIds none)).filter
        fun i => (s.plain? i).any (!·.isLoop) := by
  rw [incident, ← map_fst_chains hs hN, ← map_fst_chains hs hN, List.filter_map]
  refine congrArg (_ ++ List.map _ ·) (List.filter_congr fun x hx => ?_)
  obtain ⟨i, e⟩ := x
  have he : s.edges.get? i = some e := by
    obtain ⟨head, _, hmem⟩ := List.mem_flatMap.mp hx
    exact get?_of_mem_chainFrom hmem
  rw [Function.comp_apply, Sound.plain?_eq_some he, Option.any_some]
  rfl

end Store

namespace Session

variable {s : Session} {order : List Nat} {edges : List Edge} {n : Nat} {N : NodeSlot} {p : Phase}

open Classical in
/-- The edges at a node are read: reading its chains comes to an end, with a list that has the slots
of the edges that touch the node, each once. A walk both ways around the node comes to the same edges
and in the same order, where a loop that comes in is passed over; and the list is as long as the degrees
of the node together without the number of its loops. -/
structure IncidentExact (s : Session) (N : NodeSlot) : Prop where
  ends : ∀ slots, s.store.ReadsIncident N slots ↔ slots = s.store.incident N
  nodup : (s.store.incident N).Nodup
  mem_iff : ∀ i, i ∈ s.store.incident N ↔
    ∃ edge, s.store.edge? i = some edge ∧ edge.touches N.node = true
  walked : ∃ walk, s.adjacency N.node .both none false = .ok walk ∧
    (∀ edge, edge ∈ walk.map (·.2) ↔ ∃ i ∈ s.store.incident N, s.store.edge? i = some edge) ∧
    (s.store.incident N).map s.store.edge? =
      (walk.filter fun x => ¬ Returns .both x).map (some ·.2)
  length : ∃ loops : Nat, (loops : ℕ∞) = {edge | s.containsEdge edge = true ∧
      edge.source = N.node ∧ edge.target = N.node}.encard ∧
    (s.store.incident N).length + loops = N.degrees.outgoing + N.degrees.incoming

theorem map_some_filter_edgeAlong {l : List Nat} {f : Phase × Edge → Bool} {g : Nat → Bool}
    (h : ∀ i ∈ l, ∃ edge, s.store.edge? i = some edge ∧ f (p, edge) = g i) :
    (((l.map (p, ·)).filterMap s.edgeAlong).filter f).map (some ·.2) =
      (l.filter g).map s.store.edge? := by
  induction l with
  | nil => rfl
  | cons i rest ih =>
    obtain ⟨⟨edge, hedge, htest⟩, hrest⟩ := List.forall_mem_cons.mp h
    have halong : s.edgeAlong (p, i) = some (p, edge) := by rw [edgeAlong, hedge, Option.map_some]
    rw [List.map_cons, List.filterMap_cons_some halong, List.filter_cons, List.filter_cons, htest]
    cases g i with
    | false => exact ih hrest
    | true =>
      rw [if_pos rfl, if_pos rfl, List.map_cons, List.map_cons, ih hrest, hedge]

namespace Consistent

open Classical in
theorem map_edge?_incident (hs : s.Consistent order) (hN : s.store.nodes.get? n = some N) :
    (s.store.incident N).map s.store.edge? =
      (((s.slotsAround order n .both none).filterMap s.edgeAlong).filter
        fun x => ¬ Returns .both x).map (some ·.2) := by
  have hplain : ∀ {p i}, i ∈ s.store.course order p n (s.store.labelIds none) →
      ∃ e, s.store.plain? i = some e ∧ s.store.edge? i = some e.edge := by
    intro p i hi
    obtain ⟨_, e, he, _⟩ := Store.mem_course.mp hi
    exact ⟨e.unlinked, Store.Sound.plain?_eq_some he, (Store.edge?_eq_some he :)⟩
  have hout : ∀ i ∈ s.store.course order .outgoing n (s.store.labelIds none),
      ∃ edge, s.store.edge? i = some edge ∧ decide (¬ Returns .both (.outgoing, edge)) = true := by
    intro i hi
    obtain ⟨e, _, hedge⟩ := hplain hi
    exact ⟨e.edge, hedge, decide_eq_true fun hreturns => nomatch hreturns.2.1⟩
  have hback : ∀ i ∈ s.store.course order .incoming n (s.store.labelIds none),
      ∃ edge, s.store.edge? i = some edge ∧ decide (¬ Returns .both (.incoming, edge)) =
        (s.store.plain? i).any (!·.isLoop) := by
    intro i hi
    obtain ⟨e, he, hedge⟩ := hplain hi
    have hreturns : Returns .both (.incoming, e.edge) ↔ e.isLoop = true := by
      rw [hs.isLoop_iff he]
      exact ⟨fun h => h.2.2, fun h => ⟨rfl, rfl, h⟩⟩
    refine ⟨e.edge, hedge, ?_⟩
    rw [he, Option.any_some, Bool.eq_iff_iff, decide_eq_true_iff, hreturns, Bool.not_eq_true,
      Bool.not_eq_true']
  rw [slotsAround, Direction.phases, List.flatMap_cons, List.flatMap_singleton,
    List.filterMap_append, List.filter_append, List.map_append, map_some_filter_edgeAlong hout,
    map_some_filter_edgeAlong hback, List.filter_true, Store.incident_eq hs.sound hN,
    List.map_append]

theorem length_incident (hs : s.Consistent order) (hN : s.store.nodes.get? n = some N) :
    (s.store.incident N).length +
        s.store.tally order (fun e => e.endsAt .incoming n && e.isLoop) =
      N.degrees.outgoing + N.degrees.incoming := by
  have hout := hs.length_course hN .outgoing
  have hback := hs.countP_course (!·.isLoop) .incoming n
  have hin := hs.sound.degreed .incoming n N hN
  rw [tally_eq_add s.store order (·.endsAt .incoming n) (·.isLoop)] at hin
  rw [List.countP_true] at hout
  rw [List.countP_eq_length_filter] at hback
  change _ = N.degrees.outgoing at hout
  change N.degrees.incoming = _ at hin
  rw [Store.incident_eq hs.sound hN, List.length_append]
  omega

theorem mem_walk_iff (hs : s.Consistent order) (hN : s.store.nodes.get? n = some N) {edge : Edge} :
    edge ∈ ((s.slotsAround order n .both none).filterMap s.edgeAlong).map (·.2) ↔
      ∃ i ∈ s.store.incident N, s.store.edge? i = some edge := by
  constructor
  · intro hedge
    obtain ⟨x, hx, rfl⟩ := List.mem_map.mp hedge
    obtain ⟨⟨p, i⟩, hslot, halong⟩ := List.mem_filterMap.mp hx
    obtain ⟨edge, hi, rfl⟩ := Option.map_eq_some_iff.mp halong
    obtain ⟨q, _, hhalf⟩ := List.mem_flatMap.mp hslot
    obtain ⟨j, hj, heq⟩ := List.mem_map.mp hhalf
    obtain ⟨rfl, rfl⟩ := Prod.mk.inj heq
    obtain ⟨_, e, he, hend, _⟩ := Store.mem_course.mp hj
    have hfixed : s.store.fixed? j = some e.fixed := by rw [Store.fixed?, he, Option.map_some]
    exact ⟨j, hs.sound.mem_incident hN hfixed hend, hi⟩
  · rintro ⟨i, hi, hedge⟩
    have hmem : some edge ∈ (s.store.incident N).map s.store.edge? :=
      hedge ▸ List.mem_map_of_mem hi
    rw [hs.map_edge?_incident hN] at hmem
    obtain ⟨x, hx, heq⟩ := List.mem_map.mp hmem
    exact List.mem_map.mpr ⟨x, List.mem_of_mem_filter hx, Option.some.inj heq⟩

theorem incidentExact (hs : s.Consistent order) (hN : s.store.nodes.get? n = some N) :
    s.IncidentExact N := by
  have hnode : s.store.node? n = some N.node := Store.node?_eq_some hN
  have hwalk : s.adjacency N.node .both none false =
      .ok ((s.slotsAround order n .both none).filterMap s.edgeAlong) := by
    rw [hs.adjacency_eq (hs.nodeSlot?_eq hnode), filter_shows_false]
  exact
    { ends := fun _ => Store.readsIncident_iff hs.sound hN
      nodup := hs.sound.nodup_incident hN
      mem_iff := fun _ => hs.mem_incident_iff hN
      walked := ⟨_, hwalk, fun _ => hs.mem_walk_iff hN, hs.map_edge?_incident hN⟩
      length := ⟨_, hs.tally_eq_encard_edges fun _ _ hi => hs.isLoop_at_iff hnode hi,
        hs.length_incident hN⟩ }

end Consistent

theorem History.incident_exact (h : History s edges) (hN : s.store.nodes.get? n = some N) :
    s.IncidentExact N := by
  obtain ⟨order, hs, _⟩ := h.recorded
  exact hs.incidentExact hN

theorem incident_exact_twiceLooped : History twiceLooped [otherLoop, selfEdge] ∧
    ∃ N, twiceLooped.store.nodes.get? 0 = some N ∧ N.node = hub ∧ twiceLooped.IncidentExact N := by
  obtain ⟨order, hs, _⟩ := history_looped.recorded
  obtain ⟨_, hkept, _⟩ := gains_addEdge_arrivals hs otherLoop order hs
  obtain ⟨N, hN, hnode⟩ := Option.map_eq_some_iff.mp (hkept 0 hub node?_looped)
  exact ⟨history_twiceLooped, N, hN, hnode, history_twiceLooped.incident_exact hN⟩

end Session

end PropertyGraph

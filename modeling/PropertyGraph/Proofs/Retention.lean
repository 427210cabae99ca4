import PropertyGraph.Proofs.Removals

/-!
# Keeping some elements

A store can be told what to keep instead of what to remove. The list of what is to go is drawn up once
and worked off with removals that take further edges along; no element on it is missed, and none that is
to be kept goes. It does not matter whether what is to be kept is stored, or where.
-/

namespace PropertyGraph.Session

open PropertyGraph.Action

variable {s s' : Session} {order order' : List Nat} {edges : List Edge} {node : Node} {edge : Edge}
  {nodes : Node → Bool} {links : Edge → Bool}

/-- From a session to one that has exactly those of its nodes and edges that pass a test, each in the
slot in which it was. What does not pass is unbound if it was stored, and nothing else is. -/
structure Retains (nodes : Node → Bool) (links : Edge → Bool) (s s' : Session) : Prop
    extends Unbinds s s' where
  node?_eq : ∀ n, s'.store.node? n = (s.store.node? n).filter nodes
  edge?_eq : ∀ i, s'.store.edge? i = (s.store.edge? i).filter links
  containsNode_iff : ∀ node, s'.containsNode node = true ↔
    s.containsNode node = true ∧ nodes node = true
  containsEdge_iff : ∀ edge, s'.containsEdge edge = true ↔
    s.containsEdge edge = true ∧ links edge = true
  nodeSlot?_eq : ∀ node, nodes node = true → s'.nodeSlot? node = s.nodeSlot? node
  edgeSlot?_eq : ∀ edge, links edge = true → s'.edgeSlot? edge = s.edgeSlot? edge

theorem Unbinds.retains (h : Unbinds s s') (hs : s.Consistent order) (hs' : s'.Consistent order')
    (htoken : s'.store.token = s.store.token)
    (hnode? : ∀ n, s'.store.node? n = (s.store.node? n).filter nodes)
    (hedge? : ∀ i, s'.store.edge? i = (s.store.edge? i).filter links) :
    Retains nodes links s s' where
  toUnbinds := h
  node?_eq := hnode?
  edge?_eq := hedge?
  containsNode_iff := fun node => hs.containsNode_filter hs' hnode?
  containsEdge_iff := fun edge => hs.containsEdge_filter hs' hedge?
  nodeSlot?_eq := by
    intro node hkept
    have hhome : s'.catalog.nodeHomes[node]? = s.catalog.nodeHomes[node]? := by
      rw [h.node_home, if_neg]
      rintro ⟨hthere, hgone⟩
      rw [(hs.containsNode_filter hs' hnode?).mpr ⟨hthere, hkept⟩] at hgone
      cases hgone
    have hsame : ∀ n, s'.store.node? n = some node ↔ s.store.node? n = some node := by
      intro n
      rw [hnode?, Option.filter_eq_some_iff, and_iff_left hkept]
    rw [nodeSlot?, nodeSlot?, hhome, htoken]
    simp only [hsame]
  edgeSlot?_eq := by
    intro edge hkept
    have hhome : s'.catalog.edgeHomes[edge]? = s.catalog.edgeHomes[edge]? := by
      rw [h.edge_home, if_neg]
      rintro ⟨hthere, hgone⟩
      rw [(hs.containsEdge_filter hs' hedge?).mpr ⟨hthere, hkept⟩] at hgone
      cases hgone
    have hsame : ∀ i, s'.store.edge? i = some edge ↔ s.store.edge? i = some edge := by
      intro i
      rw [hedge?, Option.filter_eq_some_iff, and_iff_left hkept]
    rw [edgeSlot?, edgeSlot?, hhome, htoken]
    simp only [hsame]

/-! ### What is to go -/

def leftOut {α : Type} [BEq α] [Hashable α] (stored keep : List α) : List α :=
  stored.filter (!(Std.HashSet.ofList keep).contains ·)

theorem mem_leftOut {α : Type} [BEq α] [LawfulBEq α] [Hashable α] {stored keep : List α} {x : α} :
    x ∈ leftOut stored keep ↔ x ∈ stored ∧ x ∉ keep := by
  rw [leftOut, List.mem_filter, Bool.not_eq_true', Std.HashSet.contains_ofList, ← Bool.not_eq_true,
    List.contains_iff_mem]

theorem retainNodes_eq (keep : List Node) (s : Session) :
    retainNodes keep s = removeNodes (leftOut s.store.nodes.nodes keep) s := rfl

theorem retainEdges_eq (keep : List Edge) (s : Session) :
    retainEdges keep s = removeEdges (leftOut s.store.edges.edges keep) s := rfl

namespace Consistent

theorem mem_leftOut_nodes (hs : s.Consistent order) {keep : List Node} :
    node ∈ leftOut s.store.nodes.nodes keep ↔ s.containsNode node = true ∧ node ∉ keep := by
  rw [mem_leftOut, hs.mem_nodes, hs.containsNode_iff]

theorem mem_leftOut_edges (hs : s.Consistent order) {keep : List Edge} :
    edge ∈ leftOut s.store.edges.edges keep ↔ s.containsEdge edge = true ∧ edge ∉ keep := by
  rw [mem_leftOut, hs.mem_edges, hs.containsEdge_iff]

end Consistent

/-! ### What is left -/

theorem filter_congr_some {α : Type} {x : Option α} {P Q : α → Bool} (h : ∀ a, x = some a → P a = Q a) :
    x.filter P = x.filter Q := by
  cases x with
  | none => rfl
  | some a => rw [Option.filter_some, Option.filter_some, h a rfl]

theorem Consistent.retainNodes_retains (hs : s.Consistent order) (keep : List Node) :
    (∃ count : Nat, (retainNodes keep s).1 = .ok count ∧
      (count : ℕ∞) = {node | s.containsNode node = true ∧ node ∉ keep}.encard) ∧
    Retains (· ∈ keep) (fun edge => edge.source ∈ keep ∧ edge.target ∈ keep) s
      (retainNodes keep s).2 := by
  have hnodup : (leftOut s.store.nodes.nodes keep).Nodup := hs.nodup_nodes.filter _
  obtain ⟨hall, hevicts⟩ := hs.evicts_callEach hnodup fun node hnode =>
    hs.containsNode_iff.mp (hs.mem_leftOut_nodes.mp hnode).1
  obtain ⟨hkept, order', hs'⟩ :=
    keeps_countEach keeps_removeNode (leftOut s.store.nodes.nodes keep) s order hs
  rw [countEach_of_callEach hall] at hkept hs'
  have hstays : ∀ node, s.containsNode node = true →
      (node ∉ leftOut s.store.nodes.nodes keep ↔ node ∈ keep) := by
    intro node hthere
    rw [hs.mem_leftOut_nodes, and_iff_right hthere, not_not]
  rw [retainNodes_eq, removeNodes, countEach_of_callEach hall]
  refine ⟨⟨_, rfl, ?_⟩, hevicts.toUnbinds.retains hs hs' hkept.token (fun n => ?_) fun i => ?_⟩
  · simp only [length_eq_encard hnodup, hs.mem_leftOut_nodes]
  · rw [hevicts.node?_eq]
    refine filter_congr_some fun node hn => ?_
    simp only [hstays node (hs.containsNode_iff.mpr ⟨n, hn⟩)]
  · rw [hevicts.edge?_eq]
    refine filter_congr_some fun edge hi => ?_
    have hends := hs.containsNode_end (hs.containsEdge_iff.mpr ⟨i, hi⟩)
    simp only [hstays edge.source (hends .source), hstays edge.target (hends .target)]

theorem Consistent.retainEdges_retains (hs : s.Consistent order) (keep : List Edge) :
    (∃ count : Nat, (retainEdges keep s).1 = .ok count ∧
      (count : ℕ∞) = {edge | s.containsEdge edge = true ∧ edge ∉ keep}.encard) ∧
    Retains (fun _ => true) (· ∈ keep) s (retainEdges keep s).2 := by
  have hnodup : (leftOut s.store.edges.edges keep).Nodup := hs.nodup_edges.filter _
  have hthere : ∀ edge ∈ leftOut s.store.edges.edges keep, s.containsEdge edge = true :=
    fun edge hedge => (hs.mem_leftOut_edges.mp hedge).1
  obtain ⟨hall, hedgesLost⟩ := hs.losesEdges_callEach hnodup fun edge hedge =>
    hs.containsEdge_iff.mp (hthere edge hedge)
  obtain ⟨hkept, order', hs'⟩ :=
    keeps_countEach keeps_removeEdge (leftOut s.store.edges.edges keep) s order hs
  rw [countEach_of_callEach hall] at hkept hs'
  rw [retainEdges_eq, removeEdges, countEach_of_callEach hall]
  refine ⟨⟨_, rfl, ?_⟩, (hedgesLost.unbinds hs hs' hthere).retains hs hs' hkept.token (fun n => ?_)
    fun i => ?_⟩
  · simp only [length_eq_encard hnodup, hs.mem_leftOut_edges]
  · rw [hedgesLost.node?_eq]
    cases s.store.node? n <;> rfl
  · rw [hedgesLost.edge?_eq]
    refine filter_congr_some fun edge hi => ?_
    simp only [hs.mem_leftOut_edges, hs.containsEdge_iff.mpr ⟨i, hi⟩, true_and, not_not]

/-- Whatever is to be kept, all else goes and is counted: the nodes that are not to be kept and the
edges at them, or the edges alone. -/
theorem History.retains_exactly (h : History s edges) (keep : List Node) (links : List Edge) :
    ((∃ count : Nat, (retainNodes keep s).1 = .ok count ∧
        (count : ℕ∞) = {node | s.containsNode node = true ∧ node ∉ keep}.encard) ∧
      Retains (· ∈ keep) (fun edge => edge.source ∈ keep ∧ edge.target ∈ keep) s
        (retainNodes keep s).2) ∧
    (∃ count : Nat, (retainEdges links s).1 = .ok count ∧
        (count : ℕ∞) = {edge | s.containsEdge edge = true ∧ edge ∉ links}.encard) ∧
      Retains (fun _ => true) (· ∈ links) s (retainEdges links s).2 := by
  obtain ⟨order, hrecorded⟩ := h.recorded
  exact ⟨hrecorded.consistent.retainNodes_retains keep, hrecorded.consistent.retainEdges_retains links⟩

theorem retains_exactly_twiceLooped : History twiceLooped [otherLoop, selfEdge] ∧
    ((∃ count : Nat, (retainNodes [twin, twin] twiceLooped).1 = .ok count ∧
        (count : ℕ∞) = {node | twiceLooped.containsNode node = true ∧ node ∉ [twin, twin]}.encard) ∧
      Retains (· ∈ [twin, twin]) (fun edge => edge.source ∈ [twin, twin] ∧ edge.target ∈ [twin, twin])
        twiceLooped (retainNodes [twin, twin] twiceLooped).2) ∧
    (∃ count : Nat, (retainEdges [selfEdge] twiceLooped).1 = .ok count ∧
        (count : ℕ∞) = {edge | twiceLooped.containsEdge edge = true ∧ edge ∉ [selfEdge]}.encard) ∧
      Retains (fun _ => true) (· ∈ [selfEdge]) twiceLooped (retainEdges [selfEdge] twiceLooped).2 :=
  ⟨history_twiceLooped, history_twiceLooped.retains_exactly [twin, twin] [selfEdge]⟩

end PropertyGraph.Session

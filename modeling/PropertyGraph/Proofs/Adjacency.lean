import PropertyGraph.Proofs.Session.Accepted
import PropertyGraph.Proofs.Session.History

/-!
# The chains at a node

Whatever happened to a store, the chain of a node for a label and a phase has exactly the edges that
it should have, the one stored last first, and its links lead along them and back. An edge from a
node to itself is on two chains of the node, one for either phase.
-/

namespace PropertyGraph

/-- Whether an edge belongs on the chain of a node for the label with an id. -/
def Store.chainHas (s : Store) (p : Phase) (node : Node) (label : Nat) (edge : Edge) : Bool :=
  edge.node p.role = node ∧ s.labels.idOf? edge.label = some label

namespace Session

open PropertyGraph.Action

/-- The chain of a node for a label and a phase, where `edges` are all edges, the one stored last
first: from the head the links lead along the given slots to nothing, and from each slot back to the
one before; no slot comes twice; and in the slots are the edges that belong on the chain, and in
their order. -/
structure ChainAlong (s : Session) (edges : List Edge) (N : NodeSlot) (p : Phase) (label : Nat)
    (slots : List Nat) : Prop where
  linked : Linked (s.store.link? p) none (N.head? p label) slots
  nodup : slots.Nodup
  mem_iff : ∀ i, i ∈ slots ↔
    ∃ edge, s.store.edge? i = some edge ∧ s.store.chainHas p N.node label edge = true
  in_order : slots.map s.store.edge? = (edges.filter (s.store.chainHas p N.node label)).map some

variable {s : Session} {order : List Nat} {edges : List Edge} {n : Nat} {N : NodeSlot}

theorem Consistent.onChain_iff (hs : s.Consistent order) (hN : s.store.nodes.get? n = some N)
    {p : Phase} {label i : Nat} {edge : Edge} (hi : s.store.edge? i = some edge) :
    s.store.onChain p n label i = s.store.chainHas p N.node label edge := by
  obtain ⟨e, he, rfl⟩ := Option.map_eq_some_iff.mp hi
  have hplain := Store.Sound.plain?_eq_some he
  have hend : s.store.node? (e.ends.get p) = some (e.edge.node p.role) :=
    hs.sound.node_of_end i e.unlinked p hplain
  have hnode : s.store.node? n = some N.node := Store.node?_eq_some hN
  have hlabel : s.store.labels.idOf? e.edge.label = some e.label :=
    (hs.sound.labels_sound.ids_iff _ _).mpr (hs.sound.label_of i e.unlinked hplain)
  rw [Bool.eq_iff_iff, Store.onChain_iff, Store.chainHas, decide_eq_true_iff, hlabel]
  constructor
  · rintro ⟨e', he', rfl, rfl⟩
    rw [he, Option.some.injEq] at he'
    subst he'
    rw [hnode, Option.some.injEq] at hend
    exact ⟨hend.symm, rfl⟩
  · rintro ⟨hsame, hid⟩
    rw [hsame] at hend
    exact ⟨e, he, hs.node_unique hend hnode, Option.some.inj hid⟩

theorem History.exists_chainAlong (h : History s edges) (hN : s.store.nodes.get? n = some N)
    (p : Phase) (label : Nat) : ∃ slots, s.ChainAlong edges N p label slots := by
  obtain ⟨order, hs, hedges⟩ := h.recorded
  have hlive : ∀ i ∈ order, ∃ edge, s.store.edge? i = some edge := by
    intro i hi
    obtain ⟨x, hx⟩ := Option.isSome_iff_exists.mp (hs.sound.mem_iff_fixed?.mp hi)
    exact ⟨x.1, by rw [Store.edge?_eq, hx, Option.map_some]⟩
  have hfilter : order.filter (s.store.onChain p n label) =
      order.filter fun i => (s.store.edge? i).any (s.store.chainHas p N.node label) := by
    refine List.filter_congr fun i hi => ?_
    obtain ⟨edge, hedge⟩ := hlive i hi
    rw [hs.onChain_iff hN hedge, hedge, Option.any_some]
  refine ⟨order.filter (s.store.onChain p n label), hs.sound.chained p n N label hN,
    hs.sound.nodup.filter _, fun i => ?_, ?_⟩
  · rw [hfilter, List.mem_filter, Option.any_eq_true]
    constructor
    · rintro ⟨_, edge, hedge, hhas⟩
      exact ⟨edge, hedge, hhas⟩
    · rintro ⟨edge, hedge, hhas⟩
      exact ⟨hs.sound.mem_of_edge? hedge, edge, hedge, hhas⟩
  · calc (order.filter (s.store.onChain p n label)).map s.store.edge?
        = (order.map s.store.edge?).filter (·.any (s.store.chainHas p N.node label)) := by
          rw [hfilter, List.filter_map]
          rfl
      _ = (edges.filter (s.store.chainHas p N.node label)).map some := by
          rw [hedges, List.filter_map]
          rfl

/-! ### A node with a loop -/

def hub : Node := { serial := 0, id := .int 1 }

def selfEdge : Edge :=
  { serial := 1, id := .int 2, source := hub, target := hub, label := "self", directed := true }

def looped : Session := (Command.addEdge selfEdge).perform ((Command.addNode hub).perform opened)

def lone : Session where
  catalog := { nodeHomes := (∅ : Std.HashMap Node Home).insert hub ⟨0, 0⟩ }
  store :=
    { Store.empty 0 {} with
      nodes :=
        { arena :=
            { growth := .blocks 1024
              blocks := #[{ slots := #[some { node := hub }], live := 1 }]
              length := 1
              size := 1 }
          ids := (∅ : Std.HashMap ElementId Nat).insert (.int 1) 0 }
      version := { node := 1 } }

theorem addNode_hub : addNode hub opened = (.ok true, lone) := by
  have hhome : opened.nodeSlot? hub = .ok none := by
    rw [nodeSlot?]
    simp [opened]
  have hfree : opened.store.nodes.ids.contains hub.id = false := Std.HashMap.contains_empty
  rw [addNode_of_fresh rfl hhome hfree rfl]
  rfl

theorem perform_addNode_hub : (Command.addNode hub).perform opened = lone :=
  congrArg Prod.snd addNode_hub

def loopedHub : NodeSlot := { node := hub, heads := .both #[some 0], degrees := .both 1 }

def loopedEdge : EdgeSlot := { edge := selfEdge, ends := .both 0, label := 0 }

theorem addEdge_selfEdge : addEdge selfEdge lone = placeEdge selfEdge 0 0 lone := by
  have hhome : lone.edgeSlot? selfEdge = .ok none := by
    rw [edgeSlot?]
    simp [lone]
  have hhub : lone.nodeSlot? hub = .ok (some 0) := by
    have hbound : lone.catalog.nodeHomes[hub]? = some ⟨0, 0⟩ := Std.HashMap.getElem?_insert_self
    rw [nodeSlot?, hbound]
    rfl
  have hend : ∀ role, lone.endSlot selfEdge role = .ok 0 := by
    intro role
    have hnode : selfEdge.node role = hub := by cases role <;> rfl
    rw [endSlot, hnode, hhub]
    rfl
  have hrefusal : lone.refusal? selfEdge 0 0 = none := by
    rw [refusal?]
    simp [lone, Store.empty, EdgeTable.ofBlockSize, LabelRegistry.idOf?, Kind.admits]
  exact addEdge_of_fresh rfl hhome (hend .source) (hend .target) hrefusal

theorem labels_add_lone (label : String) : lone.store.labels.add label = (.ok 0,
    { labels :=
        { growth := .linear
          blocks := #[{ slots := #[some label], live := 1 }]
          length := 1
          size := 1 }
      ids := (∅ : Std.HashMap String Nat).insert label 0 }) := by
  have hnew : lone.store.labels.ids[label]? = none := Std.HashMap.getElem?_empty
  rw [LabelRegistry.add, hnew]
  rfl

theorem placeEdge_selfEdge : (placeEdge selfEdge 0 0 lone).1 = .ok true ∧
    (placeEdge selfEdge 0 0 lone).2.store.nodes.get? 0 = some loopedHub ∧
    (placeEdge selfEdge 0 0 lone).2.store.edges.get? 0 = some loopedEdge := by
  rw [placeEdge]
  simp only [bind_apply, onStore_apply, selfEdge, labels_add_lone]
  exact ⟨rfl, rfl, rfl⟩

theorem history_lone : History lone [] := by
  rw [← perform_addNode_hub]
  exact .performed opened [] (.addNode hub) (.opened 0 {} _ {} rfl)

theorem addEdge_selfEdge_done : (addEdge selfEdge lone).1 = .ok true := by
  rw [addEdge_selfEdge]
  exact placeEdge_selfEdge.1

theorem history_looped : History looped [selfEdge] := by
  obtain ⟨order, hrecorded⟩ := history_lone.recorded
  have hlooped := history_lone.performed lone [] (.addEdge selfEdge)
  rw [hrecorded.ledger_addEdge addEdge_selfEdge_done] at hlooped
  rwa [looped, perform_addNode_hub]

theorem get?_looped : looped.store.nodes.get? 0 = some loopedHub ∧
    looped.store.edges.get? 0 = some loopedEdge := by
  rw [looped, perform_addNode_hub, Command.perform, Command.act, addEdge_selfEdge]
  exact placeEdge_selfEdge.2

theorem node?_looped : looped.store.node? 0 = some hub :=
  Store.node?_eq_some get?_looped.1

theorem containsNode_looped : looped.containsNode hub = true := by
  obtain ⟨order, hs, _⟩ := history_looped.recorded
  exact containsNode_iff_nodeSlot?.mpr ⟨0, hs.nodeSlot?_eq node?_looped⟩

theorem exists_chainAlong_looped :
    History looped [selfEdge] ∧ looped.store.nodes.get? 0 = some loopedHub ∧
      (∃ slots, looped.ChainAlong [selfEdge] loopedHub .outgoing 0 slots) ∧
      ∃ slots, looped.ChainAlong [selfEdge] loopedHub .incoming 0 slots :=
  ⟨history_looped, get?_looped.1, history_looped.exists_chainAlong get?_looped.1 .outgoing 0,
    history_looped.exists_chainAlong get?_looped.1 .incoming 0⟩

end Session

end PropertyGraph

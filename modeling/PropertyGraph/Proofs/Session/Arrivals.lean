import PropertyGraph.Proofs.Session.Consistent
import PropertyGraph.Proofs.Session.Run
import PropertyGraph.Session.History

/-!
# What comes into a store

Storing a node or an edge, and registering a label, takes nothing away: what was stored stays where
it is, and no view takes notice. The edges that came are in front of those that were there, the one
stored last first.
-/

namespace PropertyGraph

namespace Session

open PropertyGraph.Action

variable {s s' s'' : Session} {order : List Nat} {came came' : List Edge} {node : Node}
  {edge : Edge} {slot source target : Nat}

/-- From a session whose edges are in the given order, another in which nothing was lost. The edges
that came, the last one first, are in front of the others. -/
structure GainsFrom (order : List Nat) (s s' : Session) (came : List Edge) : Prop where
  views : s'.store.views.arena = s.store.views.arena
  node_kept : ∀ n node, s.store.node? n = some node → s'.store.node? n = some node
  edge_kept : ∀ i x, s.store.fixed? i = some x → s'.store.fixed? i = some x
  exists_fresh : ∃ fresh : List Nat, s'.Consistent (fresh ++ order) ∧
    fresh.map s'.store.edge? = came.map some

/-- Nothing is lost, and the given edges come. -/
def Gains (s s' : Session) (came : List Edge) : Prop :=
  ∀ order, s.Consistent order → GainsFrom order s s' came

namespace Gains

theorem of_quiet (h : Quiet s s') : Gains s s' [] := by
  intro order hs
  refine ⟨h.views, fun n node hn => ?_, fun i x hx => ?_, [], h.consistent hs, rfl⟩
  · rwa [h.node?_eq]
  · rwa [h.fixed?_eq]

theorem refl (s : Session) : Gains s s [] := of_quiet (.refl s)

theorem trans (h : Gains s s' came) (h' : Gains s' s'' came') :
    Gains s s'' (came' ++ came) := by
  intro order hs
  obtain ⟨hviews, hnode, hedge, fresh, hs', hfresh⟩ := h order hs
  obtain ⟨hviews', hnode', hedge', fresh', hs'', hfresh'⟩ := h' _ hs'
  refine ⟨hviews'.trans hviews, fun n node hn => hnode' n node (hnode n node hn),
    fun i x hx => hedge' i x (hedge i x hx), fresh' ++ fresh, ?_, ?_⟩
  · rwa [List.append_assoc]
  · rw [List.map_append, List.map_append, hfresh', ← hfresh, List.append_cancel_left_eq]
    refine List.map_congr_left fun i hi => ?_
    have hlive : s'.store.edge? i ∈ came.map some := hfresh ▸ List.mem_map_of_mem hi
    obtain ⟨edge, _, hi⟩ := List.mem_map.mp hlive
    rw [Store.edge?_eq, eq_comm, Option.map_eq_some_iff] at hi
    obtain ⟨x, hx, rfl⟩ := hi
    rw [Store.edge?_eq, Store.edge?_eq, hx, hedge' i x hx]

theorem told (h : Gains s s' came) (nodes edges : Bool) (event : Event) :
    Gains s ((s'.bumpIf nodes edges).tell event) came :=
  (h.trans (of_quiet (quiet_bumpIf s' nodes edges))).trans (of_quiet (quiet_tell _ event))

/-! ### Filling a slot -/

section Fill

variable {α : Type} {held held' : Nat → Option α} {x y : α} {i : Nat}

theorem held_of_fill (hfree : held slot = none)
    (hfill : ∀ i, held' i = if i = slot then some x else held i) (hy : held i = some y) :
    held' i = some y := by
  rw [hfill, if_neg, hy]
  rintro rfl
  rw [hfree] at hy
  cases hy

theorem home_of_fill [BEq α] [LawfulBEq α] [Hashable α] {homes : Std.HashMap α Home} {token : Nat}
    (hfill : ∀ i, held' i = if i = slot then some x else held i) (hnew : ∀ i, held i ≠ some x)
    (hhome : ∀ i y, held i = some y → homes[y]? = some ⟨token, i⟩) (hy : held' i = some y) :
    (homes.insert x ⟨token, slot⟩)[y]? = some ⟨token, i⟩ := by
  rw [Std.HashMap.getElem?_insert]
  rw [hfill] at hy
  split at hy
  · next heq =>
    cases hy
    rw [if_pos BEq.rfl, heq]
  · have hne : x ≠ y := by
      rintro rfl
      exact hnew i hy
    rw [if_neg (by simpa using hne)]
    exact hhome i y hy

end Fill

/-! ### Nodes -/

theorem storeNode {nodes : NodeTable} (hhome : s.nodeSlot? node = .ok none)
    (hvalid : nodes.arena.Valid) (hfree : s.store.nodes.get? slot = none)
    (hget : ∀ n, nodes.get? n = if n = slot then some { node } else s.store.nodes.get? n) :
    Gains s ((s.withStore fun store => { store with nodes }).withCatalog
      (·.bindNode node ⟨s.store.token, slot⟩)) [] := by
  intro order hs
  have hnode : ∀ n, ({ s.store with nodes } : Store).node? n =
      if n = slot then some node else s.store.node? n := by
    intro n
    rw [Store.node?]
    change (nodes.get? n).map _ = _
    rw [hget]
    split <;> rfl
  have hkeep : ∀ n other, s.store.node? n = some other →
      ({ s.store with nodes } : Store).node? n = some other :=
    fun n other => held_of_fill (by rw [Store.node?, hfree, Option.map_none]) hnode
  have hnew : ∀ n, s.store.node? n ≠ some node := by
    intro n hn
    rw [hs.nodeSlot?_eq hn] at hhome
    cases hhome
  refine ⟨rfl, hkeep, fun _ _ h => h, [], ?_, rfl⟩
  constructor
  case sound => exact hs.sound.addNode hvalid hfree hget
  case node_home => exact fun n other => home_of_fill hnode hnew hs.node_home
  case edge_home => exact hs.edge_home
  case views_valid => exact hs.views_valid
  case closed =>
    intro slot r hr
    refine (hs.closed slot r hr).mono (fun n hn => ?_) fun _ _ h => h
    obtain ⟨other, hother⟩ := Option.isSome_iff_exists.mp hn
    exact Option.isSome_iff_exists.mpr ⟨other, hkeep n other hother⟩

/-! ### Labels and edges -/

theorem relabel {labels : LabelRegistry} (hlabels : labels.Sound)
    (hkeep : ∀ i e, s.store.plain? i = some e →
      labels.labels.get? e.label = s.store.labels.labels.get? e.label) :
    Gains s (s.withStore fun store => { store with labels }) [] := by
  intro order hs
  exact ⟨rfl, fun _ _ h => h, fun _ _ h => h, [], ⟨hs.sound.relabel hlabels hkeep, hs.node_home,
    hs.edge_home, hs.views_valid, fun slot r hr => (hs.closed slot r hr).mono (fun _ h => h)
    fun _ _ h => h⟩, rfl⟩

theorem storeEdge {t : Store} {x : Edge × Sides Nat × Nat} (hhome : s.edgeSlot? x.1 = .ok none)
    (htoken : t.token = s.store.token) (hviews : t.views = s.store.views)
    (hnode : ∀ n, t.node? n = s.store.node? n) (hfree : s.store.fixed? slot = none)
    (hfixed : ∀ i, t.fixed? i = if i = slot then some x else s.store.fixed? i)
    (hsound : ∀ order, s.store.Sound order → t.Sound (slot :: order)) :
    Gains s ⟨s.catalog.bindEdge x.1 ⟨t.token, slot⟩, t⟩ [x.1] := by
  intro order hs
  have hkeep : ∀ i y, s.store.fixed? i = some y → t.fixed? i = some y :=
    fun i y => held_of_fill hfree hfixed
  have hedge : ∀ i, t.edge? i = if i = slot then some x.1 else s.store.edge? i := by
    intro i
    rw [Store.edge?_eq, hfixed, Store.edge?_eq]
    split <;> rfl
  have hnew : ∀ i, s.store.edge? i ≠ some x.1 := by
    intro i hi
    rw [hs.edgeSlot?_eq hi] at hhome
    cases hhome
  refine ⟨congrArg (·.arena) hviews, fun n node hn => (hnode n).trans hn, hkeep, [slot], ?_, ?_⟩
  · constructor
    case sound => exact hsound order hs.sound
    case node_home =>
      intro n node hn
      change s.catalog.nodeHomes[node]? = some ⟨t.token, n⟩
      rw [htoken]
      exact hs.node_home n node ((hnode n).symm.trans hn)
    case edge_home =>
      intro i edge hi
      change (s.catalog.edgeHomes.insert x.1 ⟨t.token, slot⟩)[edge]? = some ⟨t.token, i⟩
      rw [htoken]
      exact home_of_fill hedge hnew hs.edge_home hi
    case views_valid =>
      change t.views.arena.Valid
      rw [hviews]
      exact hs.views_valid
    case closed =>
      intro i r hr
      change t.views.arena.get? i = some r at hr
      rw [hviews] at hr
      refine (hs.closed i r hr).mono (fun n hn => ?_) hkeep
      change (t.node? n).isSome
      rwa [hnode]
  · change [t.edge? slot] = _
    rw [hedge, if_pos rfl]
    rfl

end Gains

/-! ### Calls -/

theorem add_cases {t : NodeTable} (hvalid : t.arena.Valid) (node : Node) :
    (∃ fault, t.add node = (.error fault, t)) ∨
    ∃ slot t', t.add node = (.ok slot, t') ∧ t'.arena.Valid ∧ t.get? slot = none ∧
      (∀ n, t'.get? n = if n = slot then some { node } else t.get? n) ∧
      t'.ids = t.ids.insert node.id slot := by
  rw [NodeTable.add, Arena.alloc]
  rcases hvalid.allocWith_cases (fun _ => { node }) with
    ⟨h, _⟩ | ⟨slot, arena, h, hfree, hvalid', _, hget⟩
  · rw [h]
    exact .inl ⟨_, rfl⟩
  · rw [h]
    exact .inr ⟨slot, _, rfl, hvalid', hfree, hget, rfl⟩

theorem addNode_cases (hs : s.Consistent order) (node : Node) :
    (∃ answer, addNode node s = (answer, s)) ∨
    ∃ slot nodes place, s.nodeSlot? node = .ok none ∧ s.store.nodes.ids[node.id]? = none ∧
      nodes.arena.Valid ∧ s.store.nodes.get? slot = none ∧
      (∀ n, nodes.get? n = if n = slot then some { node } else s.store.nodes.get? n) ∧
      nodes.ids = s.store.nodes.ids.insert node.id slot ∧
      addNode node s = (.ok true, (((s.withStore fun store => { store with nodes }).withCatalog
        (·.bindNode node ⟨s.store.token, slot⟩)).bumpIf true false).tell (.nodeAdded node place)) := by
  rw [addNode]
  by_cases habsent : node.id.isAbsent
  · simp only [habsent, if_true, bind_apply, throw_apply]
    exact .inl ⟨_, rfl⟩
  · simp only [habsent, Bool.false_eq_true, if_false, bind_apply, ask_apply]
    cases hhome : s.nodeSlot? node with
    | error fault => exact .inl ⟨_, rfl⟩
    | ok home =>
      cases home with
      | some slot => exact .inl ⟨_, rfl⟩
      | none =>
        simp only [Option.isSome_none, Bool.false_eq_true, if_false, bind_apply, get_apply]
        by_cases htaken : s.store.nodes.ids.contains node.id
        · simp only [htaken, if_true]
          exact .inl ⟨_, rfl⟩
        · simp only [htaken, Bool.false_eq_true, if_false, pure_apply, bind_apply, onStore_apply,
            change_apply]
          rcases add_cases hs.sound.nodes_valid node with
            ⟨fault, hadd⟩ | ⟨slot, nodes, hadd, hvalid, hfree, hget, hids⟩
          · rw [hadd]
            exact .inl ⟨_, rfl⟩
          · rw [hadd]
            exact .inr ⟨slot, nodes, _, trivial,
              Std.HashMap.getElem?_eq_none_of_contains_eq_false (Bool.eq_false_iff.mpr htaken),
              hvalid, hfree, hget, hids, rfl⟩

theorem gains_addNode (node : Node) (s : Session) : Gains s (addNode node s).2 [] := by
  intro order hs
  rcases addNode_cases hs node with
    ⟨answer, h⟩ | ⟨slot, nodes, event, hhome, _, hvalid, hfree, hget, _, h⟩
  · rw [h]
    exact Gains.refl s order hs
  · rw [h]
    exact (Gains.storeNode hhome hvalid hfree hget).told _ _ _ order hs

theorem node?_of_endSlot {role : EndRole} (h : s.endSlot edge role = .ok slot) :
    s.store.node? slot = some (edge.node role) := by
  rw [endSlot] at h
  cases hslot : s.nodeSlot? (edge.node role) with
  | error fault =>
    rw [hslot] at h
    cases h
  | ok home =>
    rw [hslot] at h
    cases home with
    | none => cases h
    | some n =>
      cases h
      exact node?_of_nodeSlot? hslot

/-- Stores an edge that nothing speaks against. -/
def placeEdge (edge : Edge) (source target : Nat) : Action Bool := do
  let label ← onStore fun store =>
    match store.labels.add edge.label with
    | (answer, labels) => (answer, { store with labels })
  let record : EdgeSlot := { edge, ends := ⟨source, target⟩, label }
  let slot ← onStore fun store =>
    match store.edges.add record with
    | (answer, edges) => (answer, { store with edges })
  change (·.withStore (·.link slot record))
  change fun s => s.withCatalog (·.bindEdge edge { store := s.store.token, slot })
  change fun s => (s.bumpIf false true).tell (.edgeAdded edge (s.catalog.edgeSlot? edge))
  return true

theorem addEdge_cases (edge : Edge) (s : Session) :
    (∃ fault, addEdge edge s = (.error fault, s)) ∨
    (addEdge edge s = (.ok false, s) ∧ s.containsEdge edge = true) ∨
    ∃ source target, s.edgeSlot? edge = .ok none ∧ s.endSlot edge .source = .ok source ∧
      s.endSlot edge .target = .ok target ∧ s.refusal? edge source target = none ∧
      addEdge edge s = placeEdge edge source target s := by
  rw [addEdge]
  by_cases habsent : edge.id.isAbsent
  · simp only [habsent, if_true, bind_apply, throw_apply]
    exact .inl ⟨_, rfl⟩
  · simp only [habsent, Bool.false_eq_true, if_false, bind_apply, ask_apply]
    cases hhome : s.edgeSlot? edge with
    | error fault => exact .inl ⟨_, rfl⟩
    | ok home =>
      cases home with
      | some slot =>
        refine .inr (.inl ⟨rfl, ?_⟩)
        rw [containsEdge, hhome]
        rfl
      | none =>
        simp only [Option.isSome_none, Bool.false_eq_true, if_false, bind_apply, ask_apply]
        cases hsource : s.endSlot edge .source with
        | error fault => exact .inl ⟨_, rfl⟩
        | ok source =>
          simp only
          cases htarget : s.endSlot edge .target with
          | error fault => exact .inl ⟨_, rfl⟩
          | ok target =>
            simp only [get_apply]
            cases hrefusal : s.refusal? edge source target with
            | some fault => exact .inl ⟨_, rfl⟩
            | none => exact .inr (.inr ⟨source, target, trivial, rfl, rfl, hrefusal, rfl⟩)

theorem conflict?_of_refusal? (h : s.refusal? edge source target = none) :
    (s.store.labels.idOf? edge.label).bind
      (s.store.edges.conflict? source target · edge.directed) = none := by
  rw [refusal?] at h
  split at h
  · cases h
  · split at h
    · cases h
    · exact h

/-- Placing an edge registers its label, which may be all that is done, and then links the edge in a
slot that was free. -/
theorem placeEdge_run (hs : s.Consistent order) (edge : Edge) (source target : Nat) :
    ∃ labels : LabelRegistry, labels.Sound ∧
    (∀ i e, s.store.plain? i = some e →
      labels.labels.get? e.label = s.store.labels.labels.get? e.label) ∧
    ((∃ fault, placeEdge edge source target s =
      (.error fault, s.withStore fun store => { store with labels })) ∨
    ∃ slot label arena place t, labels.labels.get? label = some edge.label ∧
      (s.store.labels.idOf? edge.label = some label ∨
        ∀ i x, s.store.plain? i = some x → x.label ≠ label) ∧
      arena.Valid ∧ s.store.edges.get? slot = none ∧
      (∀ i, arena.get? i = if i = slot then some { edge, ends := ⟨source, target⟩, label }
        else s.store.edges.get? i) ∧
      t = Store.link { s.store with labels, edges := { s.store.edges with arena } } slot
        { edge, ends := ⟨source, target⟩, label } ∧
      placeEdge edge source target s = (.ok true,
        ((⟨s.catalog.bindEdge edge ⟨t.token, slot⟩, t⟩ : Session).bumpIf false true).tell
          (.edgeAdded edge place))) := by
  rw [placeEdge]
  simp only [bind_apply, onStore_apply, change_apply, pure_apply]
  rcases hs.sound.addLabel edge.label with
    ⟨fault, hadd⟩ | ⟨id, labels, hadd, hlabels, hkeep, hid, hnew⟩
  · rw [hadd]
    exact ⟨s.store.labels, hs.sound.labels_sound, fun _ _ _ => rfl, .inl ⟨fault, rfl⟩⟩
  · rw [hadd]
    refine ⟨labels, hlabels, hkeep, ?_⟩
    simp only [EdgeTable.add, Arena.alloc]
    rcases hs.sound.edges_valid.allocWith_cases
      (fun _ => { edge, ends := ⟨source, target⟩, label := id }) with
      ⟨hfull, _⟩ | ⟨slot, arena, halloc, hfree, hvalid, _, hget⟩
    · rw [hfull]
      exact .inl ⟨_, rfl⟩
    · rw [halloc]
      exact .inr ⟨slot, id, arena, _, _, hid, hnew, hvalid, hfree, hget, rfl, rfl⟩

theorem placeEdge_cases (hs : s.Consistent order) (hhome : s.edgeSlot? edge = .ok none)
    (hsource : s.endSlot edge .source = .ok source) (htarget : s.endSlot edge .target = .ok target)
    (hrefusal : s.refusal? edge source target = none) :
    (∃ fault, (placeEdge edge source target s).1 = .error fault ∧
      Gains s (placeEdge edge source target s).2 []) ∨
    ((placeEdge edge source target s).1 = .ok true ∧
      Gains s (placeEdge edge source target s).2 [edge]) := by
  obtain ⟨labels, hlabels, hkeep, ⟨fault, h⟩ |
    ⟨slot, id, arena, event, t, hid, hnew, hvalid, hfree, hget, hlink, h⟩⟩ :=
    placeEdge_run hs edge source target
  · rw [h]
    exact .inl ⟨fault, rfl, .relabel hlabels hkeep⟩
  · rw [h]
    refine .inr ⟨rfl, ?_⟩
    have htoken : t.token = s.store.token := by rw [hlink, Store.token_link]
    have hviews : t.views = s.store.views := by rw [hlink, Store.views_link]
    have hnode : ∀ n, t.node? n = s.store.node? n := by
      intro n
      rw [hlink, Store.node?_link]
      rfl
    have hfixed : ∀ i, t.fixed? i =
        if i = slot then some (edge, ⟨source, target⟩, id) else s.store.fixed? i := by
      rw [hlink]
      exact Store.fixed?_link_alloc hget
    have hsound : ∀ order, s.store.Sound order → t.Sound (slot :: order) := by
      intro order hsound
      obtain ⟨hparallel, hreverse⟩ :=
        hsound.of_not_conflict (e := { edge, ends := ⟨source, target⟩, label := id }) hnew
          (conflict?_of_refusal? hrefusal)
      rw [hlink]
      refine (hsound.relabel hlabels hkeep).addEdge hvalid hfree hget rfl rfl (fun p => ?_) hid
        hparallel hreverse
      cases p with
      | outgoing => exact node?_of_endSlot hsource
      | incoming => exact node?_of_endSlot htarget
    refine .told (.storeEdge hhome htoken hviews hnode ?_ hfixed hsound) _ _ _
    rw [Store.fixed?, hfree, Option.map_none]

theorem gains_addEdge (hs : s.Consistent order) (edge : Edge) :
    (Gains s (addEdge edge s).2 [] ∧
      ∀ done, (addEdge edge s).1 = .ok done → s.containsEdge edge = true) ∨
    ((addEdge edge s).1 = .ok true ∧ s.containsEdge edge = false ∧
      Gains s (addEdge edge s).2 [edge]) := by
  rcases addEdge_cases edge s with ⟨fault, hadd⟩ | ⟨hadd, hthere⟩ |
    ⟨source, target, hhome, hsource, htarget, hrefusal, hadd⟩
  · rw [hadd]
    exact .inl ⟨.refl s, fun done h => by cases h⟩
  · rw [hadd]
    exact .inl ⟨.refl s, fun _ _ => hthere⟩
  · rw [hadd]
    rcases placeEdge_cases hs hhome hsource htarget hrefusal with ⟨fault, hfst, hgains⟩ | ⟨hfst, hgains⟩
    · exact .inl ⟨hgains, fun done h => by rw [hfst] at h; cases h⟩
    · exact .inr ⟨hfst, by rw [containsEdge, hhome]; rfl, hgains⟩

theorem Consistent.node?_addEdge (hs : s.Consistent order) (h : s.store.node? slot = some node)
    (edge : Edge) : (addEdge edge s).2.store.node? slot = some node := by
  rcases gains_addEdge hs edge with ⟨hgains, _⟩ | ⟨_, _, hgains⟩
  · exact (hgains order hs).node_kept slot node h
  · exact (hgains order hs).node_kept slot node h

theorem Gains.containsEdge_iff (h : Gains s s' came) (hs : s.Consistent order) :
    s'.containsEdge edge = true ↔ edge ∈ came ∨ s.containsEdge edge = true := by
  obtain ⟨_, _, hkept, fresh, hs', hfresh⟩ := h order hs
  rw [hs'.containsEdge_iff, hs.containsEdge_iff]
  constructor
  · rintro ⟨i, hi⟩
    rcases List.mem_append.mp (hs'.sound.mem_of_edge? hi) with hi' | hi'
    · have hsome : s'.store.edge? i ∈ came.map some := hfresh ▸ List.mem_map_of_mem hi'
      rw [hi] at hsome
      exact .inl (by simpa using hsome)
    · obtain ⟨x, hx⟩ := Option.isSome_iff_exists.mp (hs.sound.mem_iff_fixed?.mp hi')
      rw [Store.edge?_eq, hkept i x hx] at hi
      exact .inr ⟨i, by rw [Store.edge?_eq, hx, hi]⟩
  · rintro (hmem | ⟨i, hi⟩)
    · have hsome : some edge ∈ fresh.map s'.store.edge? := by rw [hfresh]; exact List.mem_map_of_mem hmem
      obtain ⟨i, _, hi⟩ := List.mem_map.mp hsome
      exact ⟨i, hi⟩
    · rw [Store.edge?_eq, Option.map_eq_some_iff] at hi
      obtain ⟨x, hx, rfl⟩ := hi
      exact ⟨i, by rw [Store.edge?_eq, hkept i x hx]; rfl⟩

/-! ### Several at once -/

theorem gains_addNodes (nodes : List Node) (s : Session) : Gains s (addNodes nodes s).2 [] :=
  countEach_snd (P := fun s' => Gains s s' []) (fun node _ h => h.trans (gains_addNode node _))
    nodes (.refl s)

theorem arrivals_eq_nil {offered : List Edge}
    (h : ∀ edge, s'.containsEdge edge = true → s.containsEdge edge = true) :
    s.arrivals s' offered = [] := by
  have hnone : (offered.filter fun e => s'.containsEdge e && !s.containsEdge e) = [] := by
    refine List.filter_eq_nil_iff.mpr fun edge _ hedge => ?_
    rw [Bool.and_eq_true, Bool.not_eq_true'] at hedge
    rw [h edge hedge.1] at hedge
    cases hedge.2
  rw [arrivals, hnone]
  rfl

theorem gains_addEdges (hs : s.Consistent order) (edges : List Edge) :
    Gains s (addEdges edges s).2 (s.arrivals (addEdges edges s).2 edges) := by
  rw [addEdges]
  induction edges generalizing s order with
  | nil => exact .refl s
  | cons edge rest ih =>
    rw [countEach_cons_snd]
    rcases gains_addEdge hs edge with ⟨hgains, hdone⟩ | ⟨hfst, hnew, hgains⟩
    · obtain ⟨_, _, _, fresh, hs', hfresh⟩ := hgains order hs
      have hsame : ∀ e, (addEdge edge s).2.containsEdge e = s.containsEdge e := by
        intro e
        rw [Bool.eq_iff_iff, hgains.containsEdge_iff hs]
        simp
      cases hfst : (addEdge edge s).1 with
      | error fault =>
        rw [arrivals_eq_nil fun e he => (hsame e).symm.trans he]
        exact hgains
      | ok done =>
        have hthere := hdone done hfst
        have h := hgains.trans (ih hs')
        rw [List.append_nil] at h
        have heq : ∀ t, s.arrivals t (edge :: rest) = (addEdge edge s).2.arrivals t rest := by
          intro t
          rw [arrivals, arrivals, List.filter_cons, if_neg (by simp [hthere])]
          simp only [hsame]
        rw [heq]
        exact h
    · obtain ⟨_, _, _, fresh, hs', hfresh⟩ := hgains order hs
      simp only [hfst]
      have h := ih hs'
      have hsame : ∀ e, (addEdge edge s).2.containsEdge e = (e == edge || s.containsEdge e) := by
        intro e
        rw [Bool.eq_iff_iff, hgains.containsEdge_iff hs]
        simp
      have hstored : (countEach addEdge rest (addEdge edge s).2).2.containsEdge edge = true := by
        rw [h.containsEdge_iff hs', hsame]
        simp
      have heq : s.arrivals (countEach addEdge rest (addEdge edge s).2).2 (edge :: rest) =
          (addEdge edge s).2.arrivals (countEach addEdge rest (addEdge edge s).2).2 rest ++ [edge] := by
        rw [arrivals, arrivals, List.filter_cons, if_pos (by simp [hstored, hnew]), List.eraseDups_cons,
          List.reverse_cons, List.filter_filter]
        simp only [hsame]
        congr 4
        funext e
        rw [Bool.not_or, Bool.and_left_comm]
      rw [heq]
      exact hgains.trans h

/-! ### Labels -/

theorem gains_addLabel (label : String) (s : Session) : Gains s (addLabel label s).2 [] := by
  intro order hs
  rw [addLabel, onStore_apply]
  rcases hs.sound.addLabel label with ⟨fault, hadd⟩ | ⟨id, labels, hadd, hlabels, hkeep, _, _⟩
  · rw [hadd]
    exact Gains.refl s order hs
  · rw [hadd]
    exact Gains.relabel hlabels hkeep order hs

theorem Consistent.label_ne (hs : s.Consistent order) {id i : Nat} {e : EdgeSlot}
    (hunused : s.store.edges.labelCount id = 0) (he : s.store.plain? i = some e) : e.label ≠ id := by
  rintro rfl
  have hmem : i ∈ order := by
    rw [hs.sound.mem_iff, he]
    rfl
  have hpos := Store.tally_pos hmem he (P := (·.hasLabel e.label)) (beq_self_eq_true _)
  rw [← hs.sound.indexed.labelCount, hunused] at hpos
  cases hpos

theorem gains_removeLabel (label : String) (s : Session) : Gains s (removeLabel label s).2 [] := by
  intro order hs
  rw [removeLabel]
  simp only [bind_apply, get_apply]
  by_cases hused : 0 < s.edgeCountOf label
  · simp only [hused, if_true]
    exact Gains.refl s order hs
  · simp only [hused, if_false, onStore_apply]
    obtain ⟨hlabels, hkeep⟩ := hs.sound.labels_sound.remove label
    refine Gains.relabel hlabels (fun i e he => hkeep e.label fun hid => ?_) order hs
    rw [edgeCountOf, hid] at hused
    exact hs.label_ne (Nat.eq_zero_of_not_pos hused) he rfl

theorem gains_removeLabelId (id : Int) (s : Session) : Gains s (removeLabelId id s).2 [] := by
  intro order hs
  rw [removeLabelId]
  simp only [bind_apply, get_apply]
  by_cases hused : 0 < s.edgeCountOfId id
  · simp only [hused, if_true]
    exact Gains.refl s order hs
  · simp only [hused, if_false, onStore_apply]
    obtain ⟨hlabels, hkeep⟩ := hs.sound.labels_sound.removeId id
    refine Gains.relabel hlabels (fun i e he => hkeep e.label fun hid => ?_) order hs
    rw [edgeCountOfId, hid, LabelRegistry.labelOf_eq (hs.sound.label_of i e he), Int.mem_toNat?.mpr rfl]
      at hused
    exact hs.label_ne (Nat.eq_zero_of_not_pos hused) he rfl

end Session

end PropertyGraph

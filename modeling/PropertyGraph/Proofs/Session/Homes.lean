import PropertyGraph.Proofs.Session.HandleMaps
import PropertyGraph.Proofs.Session.History
import PropertyGraph.Proofs.Session.Still

/-!
# Slots, ids and homes

The nodes of a store have a handle map, and so have its edges: the table has the slots and the ids, the
catalog the homes. Storing an element enters it, removing it takes it out, and every other call leaves
both maps as they are. So they stay coherent whatever calls are made, and calls on one store leave the
homes in the others alone.
-/

namespace PropertyGraph

namespace Session

open PropertyGraph.Action

variable {s s' s'' : Session} {order : List Nat} {node : Node} {edge : Edge} {slot : Nat}
  {e : EdgeSlot}

def nodeHandles (s : Session) : HandleMap Node where
  held := s.store.node?
  slotOf := fun id => s.store.nodes.ids[id]?
  home := fun node => s.catalog.nodeHomes[node]?

def edgeHandles (s : Session) : HandleMap Edge where
  held := s.store.edge?
  slotOf := fun id => s.store.edges.ids[id]?
  home := fun edge => s.catalog.edgeHomes[edge]?

/-- Every edge is directed or not as the kind of the graph admits it. -/
def Admitted (s : Session) : Prop :=
  ∀ i edge, s.store.edge? i = some edge → s.store.edges.kind.admits edge.directed

/-- From a session to another of the same store, in which the handle maps are kept. -/
structure Kept (s s' : Session) : Prop where
  token : s'.store.token = s.store.token
  nodes : HandleMap.Keeps Node.id s.store.token s.nodeHandles s'.nodeHandles
  edges : HandleMap.Keeps Edge.id s.store.token s.edgeHandles s'.edgeHandles
  admitted : s.Admitted → s'.Admitted

theorem Still.nodeHandles_eq (h : Still s s') : s'.nodeHandles = s.nodeHandles := by
  unfold nodeHandles Store.node?
  rw [h.nodes, h.nodeHomes]

theorem Still.edgeHandles_eq (h : Still s s') : s'.edgeHandles = s.edgeHandles := by
  unfold edgeHandles Store.edge?
  rw [h.edges, h.edgeHomes]

theorem Still.kept (h : Still s s') : Kept s s' where
  token := h.token
  nodes := h.nodeHandles_eq ▸ .refl _
  edges := h.edgeHandles_eq ▸ .refl _
  admitted := by
    intro ha i edge hi
    rw [Store.edge?, h.edges] at hi
    rw [h.edges]
    exact ha i edge hi

namespace Kept

theorem refl (s : Session) : Kept s s := (Still.refl s).kept

theorem trans (h : Kept s s') (h' : Kept s' s'') : Kept s s'' where
  token := h'.token.trans h.token
  nodes := h.nodes.trans (h.token ▸ h'.nodes)
  edges := h.edges.trans (h.token ▸ h'.edges)
  admitted := fun ha => h'.admitted (h.admitted ha)

theorem told (h : Kept s s') (nodes edges : Bool) (event : Event) :
    Kept s ((s'.bumpIf nodes edges).tell event) :=
  h.trans (Still.told s' nodes edges event).kept

end Kept

/-- From a consistent session to another one, in which the handle maps are kept. -/
def Keeps (s s' : Session) : Prop :=
  ∀ order, s.Consistent order → Kept s s' ∧ ∃ order', s'.Consistent order'

namespace Keeps

theorem refl (s : Session) : Keeps s s := fun order hs => ⟨.refl s, order, hs⟩

theorem trans (h : Keeps s s') (h' : Keeps s' s'') : Keeps s s'' := by
  intro order hs
  obtain ⟨hkept, order', hs'⟩ := h order hs
  obtain ⟨hkept', hs''⟩ := h' order' hs'
  exact ⟨hkept.trans hkept', hs''⟩

theorem of_gains {came : List Edge} (hgains : Gains s s' came)
    (h : ∀ order, s.Consistent order → Kept s s') : Keeps s s' := by
  intro order hs
  obtain ⟨_, _, _, fresh, hs', _⟩ := hgains order hs
  exact ⟨h order hs, _, hs'⟩

theorem of_loses (hloses : Loses s s') (h : ∀ order, s.Consistent order → Kept s s') :
    Keeps s s' := by
  intro order hs
  obtain ⟨_, _, _, order', _, hs'⟩ := hloses order hs
  exact ⟨h order hs, order', hs'⟩

end Keeps

/-! ### Tables as functions -/

section Tables

variable {α β : Type} [BEq α] [LawfulBEq α] [Hashable α] [DecidableEq α]

theorem getElem?_insert_eq_update (m : Std.HashMap α β) (key : α) (value : β) :
    (fun a => (m.insert key value)[a]?) = Function.update (fun a => m[a]?) key (some value) := by
  funext a
  rw [Std.HashMap.getElem?_insert, Function.update_apply]
  by_cases ha : a = key
  · rw [if_pos ha, if_pos (beq_iff_eq.mpr ha.symm)]
  · rw [if_neg ha, if_neg fun h => ha (beq_iff_eq.mp h).symm]

theorem getElem?_erase_eq_update (m : Std.HashMap α β) (key : α) :
    (fun a => (m.erase key)[a]?) = Function.update (fun a => m[a]?) key none := by
  funext a
  rw [Std.HashMap.getElem?_erase, Function.update_apply]
  by_cases ha : a = key
  · rw [if_pos ha, if_pos (beq_iff_eq.mpr ha.symm)]
  · rw [if_neg ha, if_neg fun h => ha (beq_iff_eq.mp h).symm]

end Tables

/-! ### Elements come -/

theorem unheld_of_nodeSlot? (h : s.nodeSlot? node = .ok none) (home : Home)
    (hhome : s.nodeHandles.home node = some home) :
    home.store = s.store.token ∧ s.nodeHandles.held home.slot ≠ some node := by
  change s.catalog.nodeHomes[node]? = some home at hhome
  rw [nodeSlot?, hhome] at h
  simp only at h
  split at h
  · next hstore =>
    rw [Except.ok.injEq, ite_eq_right_iff] at h
    exact ⟨hstore, fun hheld => Option.some_ne_none _ (h hheld)⟩
  · cases h

theorem unheld_of_edgeSlot? (h : s.edgeSlot? edge = .ok none) (home : Home)
    (hhome : s.edgeHandles.home edge = some home) :
    home.store = s.store.token ∧ s.edgeHandles.held home.slot ≠ some edge := by
  change s.catalog.edgeHomes[edge]? = some home at hhome
  rw [edgeSlot?, hhome] at h
  simp only at h
  split at h
  · next hstore =>
    rw [Except.ok.injEq, ite_eq_right_iff] at h
    exact ⟨hstore, fun hheld => Option.some_ne_none _ (h hheld)⟩
  · cases h

theorem keeps_addNode (node : Node) (s : Session) : Keeps s (addNode node s).2 := by
  refine .of_gains (gains_addNode node s) fun order hs => ?_
  rcases addNode_cases hs node with
    ⟨answer, h⟩ | ⟨slot, nodes, event, hhome, hid, _, hfree, hget, hids, h⟩
  · rw [h]
    exact .refl s
  · rw [h]
    refine Kept.told ?_ _ _ _
    have hput : ((s.withStore fun store => { store with nodes }).withCatalog
        (·.bindNode node ⟨s.store.token, slot⟩)).nodeHandles =
        s.nodeHandles.put Node.id s.store.token slot node := by
      apply HandleMap.ext
      · funext n
        change (nodes.get? n).map _ = Function.update s.store.node? slot (some node) n
        rw [hget, Function.update_apply]
        split <;> rfl
      · change (fun id => nodes.ids[id]?) = _
        rw [hids]
        exact getElem?_insert_eq_update _ _ _
      · exact getElem?_insert_eq_update _ _ _
    have hheld : s.nodeHandles.held slot = none := by
      change s.store.node? slot = none
      rw [Store.node?, hfree, Option.map_none]
    refine ⟨rfl, ?_, .refl _, fun ha => ha⟩
    rw [hput]
    exact HandleMap.keeps_put hheld hid (unheld_of_nodeSlot? hhome)

theorem admits_of_refusal? {source target : Nat} (h : s.refusal? edge source target = none) :
    s.store.edges.kind.admits edge.directed ∧ s.store.edges.ids[edge.id]? = none := by
  rw [refusal?] at h
  split at h
  · cases h
  · next hadmits =>
    split at h
    · cases h
    · next htaken =>
      rw [Bool.not_eq_true, Bool.not_eq_false'] at hadmits
      exact ⟨hadmits,
        Std.HashMap.getElem?_eq_none_of_contains_eq_false (Bool.eq_false_iff.mpr htaken)⟩

theorem kept_storeEdge {t : Store} (hhome : s.edgeSlot? edge = .ok none)
    (hadmits : s.store.edges.kind.admits edge.directed) (hid : s.store.edges.ids[edge.id]? = none)
    (hfree : s.store.edges.get? slot = none) (htoken : t.token = s.store.token)
    (hnode : ∀ n, t.node? n = s.store.node? n)
    (hedge : ∀ i, t.edge? i = if i = slot then some edge else s.store.edge? i)
    (hnodeIds : t.nodes.ids = s.store.nodes.ids)
    (hedgeIds : t.edges.ids = s.store.edges.ids.insert edge.id slot)
    (hkind : t.edges.kind = s.store.edges.kind) :
    Kept s ⟨s.catalog.bindEdge edge ⟨t.token, slot⟩, t⟩ := by
  have hnodes : (⟨s.catalog.bindEdge edge ⟨t.token, slot⟩, t⟩ : Session).nodeHandles =
      s.nodeHandles := by
    apply HandleMap.ext
    · exact funext hnode
    · change (fun id => t.nodes.ids[id]?) = _
      rw [hnodeIds]
      rfl
    · rfl
  have hput : (⟨s.catalog.bindEdge edge ⟨t.token, slot⟩, t⟩ : Session).edgeHandles =
      s.edgeHandles.put Edge.id s.store.token slot edge := by
    apply HandleMap.ext
    · funext i
      exact (hedge i).trans (Function.update_apply _ _ _ _).symm
    · change (fun id => t.edges.ids[id]?) = _
      rw [hedgeIds]
      exact getElem?_insert_eq_update _ _ _
    · rw [← htoken]
      exact getElem?_insert_eq_update _ _ _
  have hheld : s.edgeHandles.held slot = none := by
    change s.store.edge? slot = none
    rw [Store.edge?, hfree, Option.map_none]
  constructor
  case token => exact htoken
  case nodes =>
    rw [hnodes]
    exact .refl _
  case edges =>
    rw [hput]
    exact HandleMap.keeps_put hheld hid (unheld_of_edgeSlot? hhome)
  case admitted =>
    intro ha i other hi
    change t.edge? i = some other at hi
    change t.edges.kind.admits other.directed
    rw [hkind]
    rw [hedge] at hi
    split at hi
    · cases hi
      exact hadmits
    · exact ha i other hi

theorem kept_placeEdge {source target : Nat} (hs : s.Consistent order)
    (hhome : s.edgeSlot? edge = .ok none) (hrefusal : s.refusal? edge source target = none) :
    Kept s (placeEdge edge source target s).2 := by
  obtain ⟨labels, _, _, ⟨fault, h⟩ |
    ⟨slot, label, arena, event, t, _, _, _, hfree, hget, hlink, h⟩⟩ :=
    placeEdge_run hs edge source target
  · -- the label may be registered by now
    rw [h]
    have hstill : Still s (s.withStore fun store => { store with labels }) :=
      ⟨rfl, rfl, rfl, rfl, rfl⟩
    exact hstill.kept
  · rw [h]
    obtain ⟨hadmits, hid⟩ := admits_of_refusal? hrefusal
    obtain ⟨hnodeIds, hedgeIds, hkind⟩ : t.nodes.ids = s.store.nodes.ids ∧
        t.edges.ids = s.store.edges.ids.insert edge.id slot ∧
        t.edges.kind = s.store.edges.kind := by
      rw [hlink]
      exact Store.ids_link
    have hnode : ∀ n, t.node? n = s.store.node? n := by
      intro n
      rw [hlink, Store.node?_link]
      rfl
    have hedge : ∀ i, t.edge? i = if i = slot then some edge else s.store.edge? i := by
      intro i
      rw [hlink, Store.edge?_eq, Store.fixed?_link_alloc hget, Store.edge?_eq]
      split <;> rfl
    have htoken : t.token = s.store.token := by rw [hlink, Store.token_link]
    exact Kept.told (kept_storeEdge hhome hadmits hid hfree htoken hnode hedge hnodeIds hedgeIds hkind)
      _ _ _

theorem keeps_addEdge (edge : Edge) (s : Session) : Keeps s (addEdge edge s).2 := by
  intro order hs
  refine Keeps.of_gains (gains_addEdge_arrivals hs edge) (fun order hs => ?_) order hs
  rcases addEdge_cases edge s with
    ⟨fault, h⟩ | ⟨h, _⟩ | ⟨source, target, hhome, _, _, hrefusal, h⟩
  · rw [h]
    exact .refl s
  · rw [h]
    exact .refl s
  · rw [h]
    exact kept_placeEdge hs hhome hrefusal

/-! ### Elements leave -/

theorem kept_forgetEdge (hs : s.Consistent order) (he : s.store.edges.get? slot = some e) :
    Kept s (s.forgetEdge slot e) := by
  obtain ⟨hnodeIds, hedgeIds, hkind⟩ :
      (s.store.unlink slot e).nodes.ids = s.store.nodes.ids ∧
        (s.store.unlink slot e).edges.ids = s.store.edges.ids.erase e.edge.id ∧
        (s.store.unlink slot e).edges.kind = s.store.edges.kind := Store.ids_unlink
  have hedge : ∀ i, (s.forgetEdge slot e).store.edge? i =
      if i = slot then none else s.store.edge? i := fun i => edge?_forgetEdge hs.sound
  have hnodes : (s.forgetEdge slot e).nodeHandles = s.nodeHandles := by
    apply HandleMap.ext
    · funext n
      exact node?_forgetEdge
    · change (fun id => (s.store.unlink slot e).nodes.ids[id]?) = _
      rw [hnodeIds]
      rfl
    · rfl
  have hdrop : (s.forgetEdge slot e).edgeHandles = s.edgeHandles.drop Edge.id slot e.edge := by
    apply HandleMap.ext
    · funext i
      exact (hedge i).trans (Function.update_apply _ _ _ _).symm
    · change (fun id => (s.store.unlink slot e).edges.ids[id]?) = _
      rw [hedgeIds]
      exact getElem?_erase_eq_update _ _
    · exact getElem?_erase_eq_update _ _
  refine ⟨Store.token_unlink, ?_, ?_, fun ha i other hi => ?_⟩
  · rw [hnodes]
    exact .refl _
  · rw [hdrop]
    refine HandleMap.keeps_drop ?_
    exact Store.edge?_eq_some he
  · change (s.store.unlink slot e).edges.kind.admits other.directed
    rw [hkind]
    rw [hedge] at hi
    split at hi
    · cases hi
    · exact ha i other hi

theorem keeps_removeEdge (edge : Edge) (s : Session) : Keeps s (removeEdge edge s).2 := by
  refine .of_loses (loses_removeEdge edge s) fun order hs => ?_
  exact removeEdge_induction (.refl s) fun _ _ _ he _ => (kept_forgetEdge hs he).told _ _ _

theorem keeps_removeEach (edges : List Edge) (s : Session) : Keeps s (removeEach edges s).2 :=
  removeEach_induction .refl .trans keeps_removeEdge edges s

theorem kept_forgetNode (hs : s.Consistent order) (hnode : s.store.node? slot = some node) :
    Kept s (s.forgetNode slot node) := by
  have hdrop : (s.forgetNode slot node).nodeHandles = s.nodeHandles.drop Node.id slot node := by
    apply HandleMap.ext
    · funext n
      exact (node?_forgetNode hs.sound).trans (Function.update_apply _ _ _ _).symm
    · exact getElem?_erase_eq_update _ _
    · exact getElem?_erase_eq_update _ _
  refine ⟨rfl, ?_, .refl _, fun ha => ha⟩
  rw [hdrop]
  exact HandleMap.keeps_drop hnode

theorem keeps_removeNode (node : Node) (s : Session) : Keeps s (removeNode node s).2 := by
  refine .of_loses (loses_removeNode node s) fun order hs => ?_
  exact hs.removeNode_induction (.refl s) (fun slot => (keeps_removeEach _ s order hs).1)
    fun _ _ _ _ hkept hs' hnode _ => (hkept.trans (kept_forgetNode hs' hnode)).told _ _ _

/-! ### All elements leave -/

theorem getElem?_foldl_erase {α β : Type} [BEq α] [LawfulBEq α] [Hashable α] [DecidableEq α]
    (keys : List α) (m : Std.HashMap α β) (a : α) :
    (keys.foldl Std.HashMap.erase m)[a]? = if a ∈ keys then none else m[a]? := by
  induction keys generalizing m with
  | nil => rw [List.foldl_nil, if_neg List.not_mem_nil]
  | cons key rest ih =>
    have hone : (m.erase key)[a]? = if a = key then none else m[a]? :=
      (congrFun (getElem?_erase_eq_update m key) a).trans (Function.update_apply _ _ _ _)
    rw [List.foldl_cons, ih, hone]
    by_cases ha : a = key <;> simp [ha]

theorem foldl_unbindNode_eq (nodes : List Node) (c : Catalog) : nodes.foldl Catalog.unbindNode c =
    { c with nodeHomes := nodes.foldl Std.HashMap.erase c.nodeHomes } := by
  induction nodes generalizing c with
  | nil => rfl
  | cons node rest ih => exact ih (c.unbindNode node)

theorem homes_foldl_unbindNode (nodes : List Node) (c : Catalog) :
    (nodes.foldl Catalog.unbindNode c).nodeHomes = nodes.foldl Std.HashMap.erase c.nodeHomes ∧
      (nodes.foldl Catalog.unbindNode c).edgeHomes = c.edgeHomes := by
  rw [foldl_unbindNode_eq]
  exact ⟨rfl, rfl⟩

theorem edgeHomes_foldl_unbindEdge (edges : List Edge) (c : Catalog) :
    (edges.foldl Catalog.unbindEdge c).edgeHomes = edges.foldl Std.HashMap.erase c.edgeHomes := by
  rw [foldl_unbindEdge_eq]

theorem kept_dropAllEdges (hs : s.Consistent order) : Kept s s.dropAllEdges := by
  have hnone : ∀ i, s.dropAllEdges.store.edge? i = none := by
    intro i
    rw [Store.edge?_eq, Store.fixed?_of_clear (t := s.store.edges) rfl, Option.map_none]
  have hnodes : s.dropAllEdges.nodeHandles = s.nodeHandles := by
    apply HandleMap.ext
    · rfl
    · rfl
    · funext node
      exact congrArg (·[node]?) (nodeHomes_foldl_unbindEdge _ s.catalog)
  have hclear : s.dropAllEdges.edgeHandles = s.edgeHandles.clear s.store.edges.edges := by
    apply HandleMap.ext
    · exact funext hnone
    · funext id
      exact Std.HashMap.getElem?_empty
    · funext edge
      change (s.store.edges.edges.foldl Catalog.unbindEdge s.catalog).edgeHomes[edge]? = _
      rw [edgeHomes_foldl_unbindEdge, getElem?_foldl_erase]
      rfl
  refine ⟨rfl, ?_, ?_, fun _ i edge hi => ?_⟩
  · rw [hnodes]
    exact .refl _
  · rw [hclear]
    exact HandleMap.keeps_clear fun _ => hs.sound.edges_valid.toLaid.mem_map_values
  · rw [hnone] at hi
    cases hi

theorem kept_dropAllNodes (hvalid : s.store.nodes.arena.Valid) : Kept s s.dropAllNodes := by
  have hnone : ∀ n, s.dropAllNodes.store.node? n = none :=
    fun n => Store.node?_of_clear (t := s.store.nodes) rfl
  have hhomes := homes_foldl_unbindNode s.store.nodes.nodes s.catalog
  have hclear : s.dropAllNodes.nodeHandles = s.nodeHandles.clear s.store.nodes.nodes := by
    apply HandleMap.ext
    · exact funext hnone
    · funext id
      exact Std.HashMap.getElem?_empty
    · funext node
      change (s.store.nodes.nodes.foldl Catalog.unbindNode s.catalog).nodeHomes[node]? = _
      rw [hhomes.1, getElem?_foldl_erase]
      rfl
  have hedges : s.dropAllNodes.edgeHandles = s.edgeHandles := by
    apply HandleMap.ext
    · rfl
    · rfl
    · funext edge
      exact congrArg (·[edge]?) hhomes.2
  refine ⟨rfl, ?_, ?_, fun ha => ha⟩
  · rw [hclear]
    exact HandleMap.keeps_clear fun _ => hvalid.toLaid.mem_map_values
  · rw [hedges]
    exact .refl _

theorem keeps_clear (s : Session) : Keeps s (clear s).2 := by
  refine .of_loses (loses_clear s) fun order hs => ?_
  rw [clear, change_apply]
  refine Kept.told ?_ _ _ _
  have hnodes : Kept s.dropAllEdges s.dropAllEdges.dropAllNodes :=
    kept_dropAllNodes (s := s.dropAllEdges) hs.sound.nodes_valid
  have hviews : Still s.dropAllEdges.dropAllNodes (s.dropAllEdges.dropAllNodes.withStore
      fun store => { store with views := store.views.map (·.forgetAll) }) :=
    ⟨rfl, rfl, rfl, rfl, rfl⟩
  exact ((kept_dropAllEdges hs).trans hnodes).trans hviews.kept

theorem kept_dropEdges (s : Session) : Kept s (s.withStore fun store =>
    { store with nodes := store.nodes.dropEdges, views := store.views.map (·.clearEdges) }) := by
  have hnodes : (s.withStore fun store => { store with
      nodes := store.nodes.dropEdges, views := store.views.map (·.clearEdges) }).nodeHandles =
      s.nodeHandles := by
    apply HandleMap.ext
    · funext n
      exact Store.node?_of_dropEdges rfl
    · rfl
    · rfl
  refine ⟨rfl, ?_, .refl _, fun ha => ha⟩
  rw [hnodes]
  exact .refl _

theorem keeps_clearEdges (s : Session) : Keeps s (clearEdges s).2 := by
  refine .of_loses (loses_clearEdges s) fun order hs => ?_
  rw [clearEdges, change_apply]
  exact ((kept_dropAllEdges hs).trans (kept_dropEdges s.dropAllEdges)).told _ _ _

/-! ### Any call -/

theorem keeps_countEach {α : Type} {call : α → Action Bool} (hcall : ∀ x s, Keeps s (call x s).2)
    (xs : List α) (s : Session) : Keeps s (countEach call xs s).2 :=
  countEach_snd (P := Keeps s) (fun x _ h => h.trans (hcall x _)) xs (.refl s)

theorem exists_consistent_perform (hs : s.Consistent order) (command : Command) :
    ∃ order', (command.perform s).Consistent order' := by
  rcases perform_cases hs command with hgains | hloses | hedits
  · obtain ⟨_, _, _, fresh, hs', _⟩ := hgains order hs
    exact ⟨_, hs'⟩
  · obtain ⟨_, _, _, order', _, hs'⟩ := hloses order hs
    exact ⟨order', hs'⟩
  · exact ⟨order, (hedits order hs).consistent⟩

theorem countEach_relates {α : Type} {call : α → Action Bool} (R : Session → Session → Prop)
    (hrefl : ∀ s, R s s) (htrans : ∀ {s s' s''}, R s s' → R s' s'' → R s s'')
    (hcall : ∀ s order, s.Consistent order → ∀ x,
      R s (call x s).2 ∧ ∃ order', (call x s).2.Consistent order')
    (hs : s.Consistent order) (xs : List α) : R s (countEach call xs s).2 := by
  have hrun : R s (countEach call xs s).2 ∧
      ∃ order', (countEach call xs s).2.Consistent order' := by
    refine countEach_snd (P := fun t => R s t ∧ ∃ order', t.Consistent order') ?_ xs
      ⟨hrefl s, order, hs⟩
    rintro x t ⟨hfirst, order', ht⟩
    obtain ⟨hone, ht'⟩ := hcall t order' ht x
    exact ⟨htrans hfirst hone, ht'⟩
  exact hrun.1

theorem keeps_perform (command : Command) (s : Session) : Keeps s (command.perform s) := by
  have of_still : Still s (command.perform s) → Keeps s (command.perform s) :=
    fun h order hs => ⟨h.kept, exists_consistent_perform hs command⟩
  cases command with
  | addNode node => exact keeps_addNode node s
  | removeNode node => exact keeps_removeNode node s
  | addEdge edge => exact keeps_addEdge edge s
  | removeEdge edge => exact keeps_removeEdge edge s
  | addNodes nodes => exact keeps_countEach keeps_addNode nodes s
  | removeNodes nodes => exact keeps_countEach keeps_removeNode nodes s
  | retainNodes keep => exact keeps_countEach keeps_removeNode _ s
  | addEdges edges => exact keeps_countEach keeps_addEdge edges s
  | removeEdges edges => exact keeps_countEach keeps_removeEdge edges s
  | retainEdges keep => exact keeps_countEach keeps_removeEdge _ s
  | clear => exact keeps_clear s
  | clearEdges => exact keeps_clearEdges s
  | registerListener listener => exact of_still ⟨rfl, rfl, rfl, rfl, rfl⟩
  | unregisterListener listener => exact of_still ⟨rfl, rfl, rfl, rfl, rfl⟩
  | _ => exact of_still (aside_perform _ s rfl).toStill

end Session

end PropertyGraph

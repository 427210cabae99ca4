import PropertyGraph.Proofs.Admission
import PropertyGraph.Proofs.Atomicity
import PropertyGraph.Proofs.Walks.Folded

/-!
# Edges that are taken out and put back

The slot of an edge that is removed is the next to be handed out. So edges that are removed one after
the other and then stored again in the reverse order come back to the slots that they had. That they
are not refused is no accident: they were stored together before.
-/

namespace PropertyGraph

/-! ### Placements -/

/-- What the place of every edge depends on: which nodes, edges and labels are stored where, which
handles are at home where, and which slots wait to be handed out. -/
@[ext]
structure Placement where
  token : Nat
  kind : Kind
  labels : LabelRegistry
  node? : Nat → Option Node
  fixed? : Nat → Option (Edge × Sides Nat × Nat)
  garbage : List Nat
  nodeHome : Node → Option Home
  edgeHome : Edge → Option Home

namespace Placement

variable {b : Placement} {slot : Nat} {x : Edge × Sides Nat × Nat}

/-- An edge leaves its slot, which is on top of the stack then. -/
def drop (slot : Nat) (edge : Edge) (b : Placement) : Placement :=
  { b with
    fixed? := Function.update b.fixed? slot none
    garbage := slot :: b.garbage
    edgeHome := Function.update b.edgeHome edge none }

/-- An edge goes to the slot on top of the stack. -/
def put (slot : Nat) (x : Edge × Sides Nat × Nat) (b : Placement) : Placement :=
  { b with
    fixed? := Function.update b.fixed? slot (some x)
    garbage := b.garbage.tail
    edgeHome := Function.update b.edgeHome x.1 (some ⟨b.token, slot⟩) }

theorem put_drop (hheld : b.fixed? slot = some x) (hhome : b.edgeHome x.1 = some ⟨b.token, slot⟩) :
    (b.drop slot x.1).put slot x = b := by
  have hfixed : Function.update b.fixed? slot (some x) = b.fixed? := by
    rw [← hheld, Function.update_eq_self]
  have hhomes : Function.update b.edgeHome x.1 (some ⟨b.token, slot⟩) = b.edgeHome := by
    rw [← hhome, Function.update_eq_self]
  apply Placement.ext
  · rfl
  · rfl
  · rfl
  · rfl
  · exact (Function.update_idem _ _ _).trans hfixed
  · rfl
  · rfl
  · exact (Function.update_idem _ _ _).trans hhomes

end Placement

namespace Session

open PropertyGraph.Action

variable {s t : Session} {order order' : List Nat} {edges : List Edge} {edge other : Edge}
  {slot source target label i j : Nat} {e f : EdgeSlot} {x : Edge × Sides Nat × Nat}

def placement (s : Session) : Placement where
  token := s.store.token
  kind := s.store.edges.kind
  labels := s.store.labels
  node? := s.store.node?
  fixed? := s.store.fixed?
  garbage := s.store.edges.arena.garbage
  nodeHome := fun node => s.catalog.nodeHomes[node]?
  edgeHome := fun edge => s.catalog.edgeHomes[edge]?

theorem placement_told (s : Session) (nodes edges : Bool) (event : Event) :
    ((s.bumpIf nodes edges).tell event).placement = s.placement := by
  obtain ⟨hnodes, hedges⟩ := homes_foldl_tell event s.store.listeners s.catalog
  apply Placement.ext
  · rfl
  · rfl
  · rfl
  · rfl
  · rfl
  · rfl
  · exact congrArg (fun homes => fun node : Node => homes[node]?) hnodes
  · exact congrArg (fun homes => fun edge : Edge => homes[edge]?) hedges

/-! ### An edge leaves -/

theorem placement_forgetEdge (hs : s.store.Sound order) (he : s.store.edges.get? slot = some e) :
    (s.forgetEdge slot e).placement = s.placement.drop slot e.edge := by
  apply Placement.ext
  · exact Store.token_unlink
  · exact Store.ids_unlink.2.2
  · change (s.store.unlink slot e).labels = s.store.labels
    rw [Store.unlink_eq]
  · exact funext fun _ => node?_forgetEdge
  · exact funext fun i => (fixed?_forgetEdge hs).trans (Function.update_apply _ _ _ _).symm
  · exact hs.garbage_unlink he
  · rfl
  · exact getElem?_erase_eq_update _ _

theorem Consistent.placement_removeEdge (hs : s.Consistent order)
    (hslot : s.store.fixed? slot = some x) :
    (removeEdge x.1 s).2.placement = s.placement.drop slot x.1 := by
  have hedge := Store.edge?_of_fixed? hslot
  obtain ⟨e, place, he, heq, h⟩ := hs.exists_removeEdge_eq hedge
  rw [h, placement_told, placement_forgetEdge hs.sound he, heq]

/-! ### An edge comes back -/

theorem placement_link {arena : Arena EdgeSlot} {u : Store}
    (hget : ∀ i, arena.get? i = if i = slot then some e else s.store.edges.get? i)
    (hgarbage : arena.garbage = s.store.edges.arena.garbage.tail)
    (hlink : u = Store.link { s.store with edges := { s.store.edges with arena } } slot e) :
    (⟨s.catalog.bindEdge e.edge ⟨u.token, slot⟩, u⟩ : Session).placement =
      s.placement.put slot e.fixed := by
  have htoken : u.token = s.store.token := by rw [hlink, Store.token_link]
  apply Placement.ext
  · exact htoken
  · change u.edges.kind = _
    rw [hlink]
    exact Store.ids_link.2.2
  · change u.labels = s.store.labels
    rw [hlink, Store.link_eq]
  · funext n
    change u.node? n = s.store.node? n
    rw [hlink, Store.node?_link]
    rfl
  · funext i
    change u.fixed? i = Function.update s.store.fixed? slot (some e.fixed) i
    rw [hlink, Function.update_apply]
    exact Store.fixed?_link_alloc hget i
  · change u.edges.arena.garbage = _
    rw [hlink, Store.garbage_link]
    exact hgarbage
  · rfl
  · rw [htoken]
    exact getElem?_insert_eq_update _ _ _

theorem Consistent.placeEdge_waiting (hs : s.Consistent order) {garbage : List Nat}
    (hlabel : s.store.labels.idOf? edge.label = some label)
    (hgarbage : s.store.edges.arena.garbage = slot :: garbage) :
    (placeEdge edge source target s).1 = .ok true ∧ (placeEdge edge source target s).2.placement =
      s.placement.put slot (edge, ⟨source, target⟩, label) := by
  have hadd : s.store.labels.add edge.label = (.ok label, s.store.labels) := by
    rw [LabelRegistry.idOf?] at hlabel
    rw [LabelRegistry.add, hlabel]
  obtain ⟨hanswer, _, hget⟩ := hs.sound.edges_valid.alloc_of_cons
    ({ edge, ends := ⟨source, target⟩, label } : EdgeSlot) hgarbage
  have hrest : (s.store.edges.arena.alloc { edge, ends := ⟨source, target⟩, label }).2.garbage =
      s.store.edges.arena.garbage.tail := Arena.garbage_alloc
  rw [placeEdge]
  simp only [bind_apply, onStore_apply, change_apply, pure_apply, hadd, EdgeTable.add]
  rcases halloc : s.store.edges.arena.alloc { edge, ends := ⟨source, target⟩, label } with
    ⟨answer, arena⟩
  rw [halloc] at hanswer hget hrest
  subst hanswer
  exact ⟨rfl, (placement_told _ _ _ _).trans (placement_link hget hrest rfl)⟩

theorem Consistent.not_conflicts (hs : s.Consistent order) (hi : s.store.plain? i = some e)
    (hj : s.store.plain? j = some f) (hne : i ≠ j) : ¬ e.edge.Conflicts f.edge := by
  rintro ⟨hlabel, ⟨hsource, htarget⟩ | ⟨hsource, htarget, hends, hnot⟩⟩
  · exact hne (hs.slot_eq_of_parallel hj hi hsource htarget hlabel).symm
  · have hreverses := (hs.reverses_iff hi hj).mpr ⟨hsource, htarget, hlabel, hends⟩
    have hi' := hs.mem_of_plain? hi
    have hj' := hs.mem_of_plain? hj
    exact hnot ⟨hs.sound.paired.directed i hi' j hj' e f hi hj hreverses,
      hs.sound.paired.directed j hj' i hi' f e hj hi hreverses.symm⟩

/-- Where an edge was dropped, nothing speaks against it: whatever is stored was stored with it. -/
theorem Consistent.refusal?_of_dropped (hs : s.Consistent order) (hlisted : s.edgeHandles.Listed Edge.id)
    (hadmitted : s.Admitted) (hslot : s.store.fixed? slot = some x) (ht : t.Consistent order')
    (hlisted' : t.edgeHandles.Listed Edge.id) (hdropped : t.placement = s.placement.drop slot x.1) :
    t.refusal? x.1 (x.2.1.get .outgoing) (x.2.1.get .incoming) = none := by
  have hedge := Store.edge?_of_fixed? hslot
  have hnode : t.store.node? = s.store.node? := congrArg Placement.node? hdropped
  have hkind : t.store.edges.kind = s.store.edges.kind := congrArg Placement.kind hdropped
  have hfixed : ∀ i, t.store.fixed? i = if i = slot then none else s.store.fixed? i := fun i =>
    (congrFun (congrArg Placement.fixed? hdropped) i).trans (Function.update_apply _ _ _ _)
  have hbefore : ∀ other, t.containsEdge other = true →
      ∃ i, i ≠ slot ∧ s.store.edge? i = some other := by
    intro other hother
    obtain ⟨i, hi⟩ := ht.containsEdge_iff.mp hother
    rw [Store.edge?_eq, hfixed] at hi
    split at hi
    · cases hi
    · next hne => exact ⟨i, hne, Store.edge?_eq.trans hi⟩
  refine (ht.refusal?_eq_none_iff hlisted' ?_ ?_).mpr ⟨?_, fun other hother heq => ?_,
    fun other hother => ?_⟩
  · rw [hnode]
    exact hs.sound.node?_of_fixed? hslot .outgoing
  · rw [hnode]
    exact hs.sound.node?_of_fixed? hslot .incoming
  · rw [hkind]
    exact hadmitted slot x.1 hedge
  · obtain ⟨i, hne, hi⟩ := hbefore other hother
    obtain rfl := hlisted.id_unique hi hedge heq
    exact hne (hs.edge_unique hi hedge)
  · obtain ⟨i, hne, hi⟩ := hbefore other hother
    rw [Store.edge?_eq, Store.fixed?_eq, Option.map_map, Option.map_eq_some_iff] at hi hedge
    obtain ⟨f, hf, rfl⟩ := hi
    obtain ⟨e, he, hsame⟩ := hedge
    rw [← hsame]
    exact hs.not_conflicts he hf hne.symm

theorem History.addEdge_dropped {came came' : List Edge} (h : History s came)
    (hslot : s.store.fixed? slot = some x) (h' : History t came')
    (hdropped : t.placement = s.placement.drop slot x.1) :
    (addEdge x.1 t).1 = .ok true ∧ (addEdge x.1 t).2.placement = s.placement := by
  obtain ⟨order, hs, _⟩ := h.recorded
  obtain ⟨order', ht, _⟩ := h'.recorded
  have hedge := Store.edge?_of_fixed? hslot
  have hnode : t.store.node? = s.store.node? := congrArg Placement.node? hdropped
  have hlabels : t.store.labels = s.store.labels := congrArg Placement.labels hdropped
  have hhome : t.edgeSlot? x.1 = .ok none := by
    have hnone : t.catalog.edgeHomes[x.1]? = none :=
      (congrFun (congrArg Placement.edgeHome hdropped) x.1).trans (Function.update_self _ _ _)
    rw [edgeSlot?, hnone]
  have hend : ∀ p : Phase, t.endSlot x.1 p.role = .ok (x.2.1.get p) := by
    intro p
    have hstored := hs.sound.node?_of_fixed? hslot p
    rw [← hnode] at hstored
    rw [endSlot, ht.nodeSlot?_eq hstored]
    rfl
  have hlabel : t.store.labels.idOf? x.1.label = some x.2.2 := by
    rw [Store.fixed?_eq, Option.map_eq_some_iff] at hslot
    obtain ⟨e, he, rfl⟩ := hslot
    rw [hlabels]
    exact hs.idOf?_label he
  rw [addEdge_of_fresh (h.id_not_absent (hs.containsEdge_iff.mpr ⟨slot, hedge⟩)) hhome
    (hend .outgoing) (hend .incoming)
    (hs.refusal?_of_dropped h.listed h.admitted hslot ht h'.listed hdropped)]
  obtain ⟨hdone, hput⟩ := ht.placeEdge_waiting hlabel (congrArg Placement.garbage hdropped)
  refine ⟨hdone, hput.trans ?_⟩
  rw [hdropped]
  exact Placement.put_drop hslot (hs.edge_home slot x.1 hedge)

/-! ### One after the other -/

/-- Makes a call for each element in turn, whatever the answers are. -/
def callEach {α β : Type} (call : α → Action β) : List α → Session → List (Except Fault β) × Session
  | [], s => ([], s)
  | x :: rest, s =>
    ((call x s).1 :: (callEach call rest (call x s).2).1, (callEach call rest (call x s).2).2)

section CallEach

variable {α β : Type} {call : α → Action β}

theorem callEach_append (xs ys : List α) (s : Session) : callEach call (xs ++ ys) s =
    ((callEach call xs s).1 ++ (callEach call ys (callEach call xs s).2).1,
      (callEach call ys (callEach call xs s).2).2) := by
  induction xs generalizing s with
  | nil => rfl
  | cons x rest ih =>
    rw [List.cons_append, callEach, ih]
    rfl

theorem History.callEach (command : α → Command)
    (hcall : ∀ x s, (call x s).2 = (command x).perform s) (h : History s edges) (xs : List α) :
    ∃ came, History (Session.callEach call xs s).2 came := by
  induction xs generalizing s edges with
  | nil => exact ⟨edges, h⟩
  | cons x rest ih =>
    have hfirst := h.performed s edges (command x)
    rw [← hcall] at hfirst
    exact ih hfirst

end CallEach

theorem edge?_of_placement (hsame : t.placement = s.placement) : t.store.edge? = s.store.edge? := by
  funext i
  rw [Store.edge?_eq, Store.edge?_eq]
  exact congrArg (Option.map _) (congrFun (congrArg Placement.fixed? hsame) i)

/-- Edges that are removed come back to where they were if the last one removed is stored first. -/
theorem History.placement_reinserted {gone : List Edge} (h : History s edges) (hnodup : gone.Nodup)
    (hthere : ∀ edge ∈ gone, s.containsEdge edge = true) :
    (Session.callEach removeEdge gone s).1 = List.replicate gone.length (.ok true) ∧
      (Session.callEach addEdge gone.reverse (Session.callEach removeEdge gone s).2).1 =
        List.replicate gone.length (.ok true) ∧
      (Session.callEach addEdge gone.reverse
        (Session.callEach removeEdge gone s).2).2.placement = s.placement := by
  induction gone generalizing s edges with
  | nil => exact ⟨rfl, rfl, rfl⟩
  | cons edge rest ih =>
    obtain ⟨hnew, hnodup'⟩ := List.nodup_cons.mp hnodup
    obtain ⟨order, hs, _⟩ := h.recorded
    obtain ⟨slot, hedge⟩ := hs.containsEdge_iff.mp (hthere edge List.mem_cons_self)
    obtain ⟨x, hslot, rfl⟩ : ∃ x, s.store.fixed? slot = some x ∧ x.1 = edge := by
      rwa [Store.edge?_eq, Option.map_eq_some_iff] at hedge
    have hfirst := h.performed s edges (.removeEdge x.1)
    have hrest : ∀ edge ∈ rest, (removeEdge x.1 s).2.containsEdge edge = true := by
      intro edge hmem
      obtain ⟨order', hs', _⟩ := hfirst.recorded
      obtain ⟨i, hi⟩ := hs.containsEdge_iff.mp (hthere edge (List.mem_cons_of_mem _ hmem))
      have hne : edge ≠ x.1 := fun heq => hnew (heq ▸ hmem)
      exact hs'.containsEdge_iff.mpr ⟨i, edge?_removeEdge_of_ne hs hne hi⟩
    -- When all others are back, the slot of the first edge is on top of the stack again.
    obtain ⟨hgone, hback, hsame⟩ := ih hfirst hnodup' hrest
    obtain ⟨_, hbare⟩ := History.callEach .removeEdge (fun _ _ => rfl) hfirst rest
    obtain ⟨_, hafter⟩ := History.callEach .addEdge (fun _ _ => rfl) hbare rest.reverse
    obtain ⟨hadded, hlast⟩ :=
      h.addEdge_dropped hslot hafter (hsame.trans (hs.placement_removeEdge hslot))
    rw [List.reverse_cons, callEach_append]
    refine ⟨?_, ?_, hlast⟩
    · change (removeEdge x.1 s).1 :: (Session.callEach removeEdge rest (removeEdge x.1 s).2).1 = _
      rw [removeEdge_of_stored hs hedge, List.length_cons, List.replicate_succ]
      exact congrArg _ hgone
    · change (Session.callEach addEdge rest.reverse
          (Session.callEach removeEdge rest (removeEdge x.1 s).2).2).1 ++ [_] = _
      rw [List.length_cons, List.replicate_succ']
      exact congrArg₂ _ hback (congrArg (fun answer => [answer]) hadded)

/-! ### What the placement determines -/

/-- The edges are the same and in the same slots, the same slots wait, and everything that is counted
of the edges is counted alike. -/
structure KeepsEdges (s t : Session) : Prop where
  edgeSlot?_eq : ∀ edge, t.edgeSlot? edge = s.edgeSlot? edge
  slots_eq : t.store.edges.slots = s.store.edges.slots
  edgesInOrder_eq : ∀ folded, t.edgesInOrder folded = s.edgesInOrder folded
  garbage_eq : t.store.edges.arena.garbage = s.store.edges.arena.garbage
  isMutual_eq : ∀ i, (t.store.edges.get? i).map (·.isMutual) = (s.store.edges.get? i).map (·.isMutual)
  phaseDegree_eq : ∀ node p, t.phaseDegree node p = s.phaseDegree node p
  mutualDegree_eq : ∀ node, t.mutualDegree node = s.mutualDegree node
  edgeCountOf_eq : ∀ label, t.edgeCountOf label = s.edgeCountOf label
  mutualCount_eq : t.store.edges.mutualCount = s.store.edges.mutualCount
  loopCount_eq : t.store.edges.loopCount = s.store.edges.loopCount

section SamePlacement

variable (hs : s.Consistent order) (ht : t.Consistent order') (hsame : t.placement = s.placement)
include hsame

theorem nodeSlot?_of_placement (node : Node) : t.nodeSlot? node = s.nodeSlot? node := by
  have hhome : t.catalog.nodeHomes[node]? = s.catalog.nodeHomes[node]? :=
    congrFun (congrArg Placement.nodeHome hsame) node
  have htoken : t.store.token = s.store.token := congrArg Placement.token hsame
  have hnode : t.store.node? = s.store.node? := congrArg Placement.node? hsame
  rw [nodeSlot?, hhome, htoken, hnode]
  rfl

theorem edgeSlot?_of_placement (edge : Edge) : t.edgeSlot? edge = s.edgeSlot? edge := by
  have hhome : t.catalog.edgeHomes[edge]? = s.catalog.edgeHomes[edge]? :=
    congrFun (congrArg Placement.edgeHome hsame) edge
  have htoken : t.store.token = s.store.token := congrArg Placement.token hsame
  rw [edgeSlot?, hhome, htoken, edge?_of_placement hsame]
  rfl

theorem containsEdge_of_placement (edge : Edge) : t.containsEdge edge = s.containsEdge edge := by
  rw [containsEdge, edgeSlot?_of_placement hsame]
  rfl

theorem joins_of_placement (u v : Node) (label : String) : t.Joins u v label ↔ s.Joins u v label := by
  simp only [Joins, containsEdge_of_placement hsame]

include hs ht

theorem plain?_of_placement (i : Nat) : t.store.plain? i = s.store.plain? i := by
  have hfixed : t.store.fixed? i = s.store.fixed? i := congrFun (congrArg Placement.fixed? hsame) i
  cases hi : s.store.edges.get? i with
  | none =>
    rw [Store.fixed?, Store.fixed?, hi, Option.map_none, Option.map_eq_none_iff] at hfixed
    rw [Store.plain?, Store.plain?, hi, hfixed]
  | some e =>
    rw [Store.fixed?, Store.fixed?, hi, Option.map_some, Option.map_eq_some_iff] at hfixed
    obtain ⟨f, hj, heq⟩ := hfixed
    -- what is not fixed of an edge, its flag, depends on which edges are stored
    have hmutual : f.isMutual = e.isMutual := by
      have hedge : f.edge = e.edge := congrArg (·.1) heq
      have hf := ht.isMutual_iff (Store.Sound.plain?_eq_some hj)
      have he := hs.isMutual_iff (Store.Sound.plain?_eq_some hi)
      simp only [joins_of_placement hsame] at hf
      rw [Bool.eq_iff_iff]
      exact hf.trans (hedge ▸ he.symm)
    rw [Store.plain?, Store.plain?, hi, hj, Option.map_some, Option.map_some]
    obtain ⟨edge, ends, label, isMutual, links⟩ := e
    simp only [EdgeSlot.fixed, Prod.mk.injEq] at heq hmutual
    obtain ⟨hedge, hends, hlabel⟩ := heq
    rw [EdgeSlot.unlinked, hedge, hends, hlabel, hmutual]
    rfl

theorem slots_of_placement : t.store.edges.slots = s.store.edges.slots := by
  apply ht.sound.edges_valid.toLaid.pairwise_lt_slots.eq_of_mem_iff
    hs.sound.edges_valid.toLaid.pairwise_lt_slots
  intro i
  have hfixed : t.store.fixed? i = s.store.fixed? i := congrFun (congrArg Placement.fixed? hsame) i
  rw [show i ∈ t.store.edges.arena.slots ↔ _ from ht.sound.mem_edgeSlots, hfixed]
  exact hs.sound.mem_edgeSlots.symm

theorem edgesInOrder_of_placement (folded : Bool) : t.edgesInOrder folded = s.edgesInOrder folded := by
  have hshows : ∀ i, t.store.showsEdge i folded = s.store.showsEdge i folded := by
    intro i
    cases folded with
    | false => rfl
    | true =>
      rw [Consistent.showsEdge_true, plain?_of_placement hs ht hsame, Consistent.showsEdge_true]
  rw [edgesInOrder, slots_of_placement hs ht hsame, edge?_of_placement hsame,
    List.filter_congr fun i _ => hshows i]
  rfl

theorem nodeRecord_of_placement (node : Node) :
    (∃ fault, t.nodeRecord node = .error fault ∧ s.nodeRecord node = .error fault) ∨
    ∃ N' N, t.nodeRecord node = .ok N' ∧ s.nodeRecord node = .ok N ∧
      (∀ p, N'.degrees.get p = N.degrees.get p) ∧ N'.mutualDegree = N.mutualDegree := by
  have hslot' := nodeSlot?_of_placement hsame node
  rcases hslot : s.nodeSlot? node with fault | ⟨_ | n⟩
  · refine .inl ⟨fault, ?_, ?_⟩
    · rw [nodeRecord, resolveNode, hslot', hslot]
      rfl
    · rw [nodeRecord, resolveNode, hslot]
      rfl
  · refine .inl ⟨.nodeNotStored node.id, ?_, ?_⟩
    · rw [nodeRecord, resolveNode, hslot', hslot]
      rfl
    · rw [nodeRecord, resolveNode, hslot]
      rfl
  · obtain ⟨_, N, hN, rfl, hrecord⟩ :=
      Consistent.exists_nodeRecord (containsNode_iff_nodeSlot?.mpr ⟨n, hslot⟩)
    obtain ⟨_, N', hN', hnode, hrecord'⟩ :=
      Consistent.exists_nodeRecord (containsNode_iff_nodeSlot?.mpr ⟨n, hslot'.trans hslot⟩)
    refine .inr ⟨N', N, hrecord', hrecord, fun p => ?_, ?_⟩
    · rw [← ENat.natCast_inj, ht.degree_eq_encard hN', hs.degree_eq_encard hN, hnode]
      simp only [containsEdge_of_placement hsame]
    · rw [← ENat.natCast_inj, ht.mutualDegree_eq_encard hN', hs.mutualDegree_eq_encard hN, hnode]
      simp only [joins_of_placement hsame]

theorem keepsEdges_of_placement : s.KeepsEdges t where
  edgeSlot?_eq := edgeSlot?_of_placement hsame
  slots_eq := slots_of_placement hs ht hsame
  edgesInOrder_eq := edgesInOrder_of_placement hs ht hsame
  garbage_eq := congrArg Placement.garbage hsame
  isMutual_eq := by
    intro i
    have hflags : ∀ u : Store,
        (u.edges.get? i).map (·.isMutual) = (u.plain? i).map (·.isMutual) := by
      intro u
      rw [Store.plain?, Option.map_map]
      rfl
    rw [hflags, plain?_of_placement hs ht hsame, hflags]
  phaseDegree_eq := by
    intro node p
    rcases nodeRecord_of_placement hs ht hsame node with
      ⟨fault, hrecord', hrecord⟩ | ⟨N', N, hrecord', hrecord, hdegrees, _⟩
    · rw [phaseDegree, phaseDegree, hrecord', hrecord]
    · rw [phaseDegree, phaseDegree, hrecord', hrecord, ok_bind, ok_bind, hdegrees]
  mutualDegree_eq := by
    intro node
    rcases nodeRecord_of_placement hs ht hsame node with
      ⟨fault, hrecord', hrecord⟩ | ⟨N', N, hrecord', hrecord, _, hmutual⟩
    · rw [mutualDegree, mutualDegree, hrecord', hrecord]
    · rw [mutualDegree, mutualDegree, hrecord', hrecord, ok_bind, ok_bind, hmutual]
  edgeCountOf_eq := by
    intro label
    rw [← ENat.natCast_inj, ht.countersExact.edgeCountOf, hs.countersExact.edgeCountOf]
    simp only [containsEdge_of_placement hsame]
  mutualCount_eq := by
    rw [← ENat.natCast_inj, ht.countersExact.mutualCount, hs.countersExact.mutualCount]
    simp only [joins_of_placement hsame]
  loopCount_eq := by
    rw [← ENat.natCast_inj, ht.countersExact.loopCount, hs.countersExact.loopCount]
    simp only [containsEdge_of_placement hsame]

end SamePlacement

/-- All the edges are removed in turn, all are stored again in the reverse order, and nothing is to be
seen of it. -/
structure Reinserts (s : Session) (gone : List Edge) : Prop where
  removed : (callEach removeEdge gone s).1 = List.replicate gone.length (.ok true)
  stored : (callEach addEdge gone.reverse (callEach removeEdge gone s).2).1 =
    List.replicate gone.length (.ok true)
  keepsEdges : s.KeepsEdges (callEach addEdge gone.reverse (callEach removeEdge gone s).2).2

/-- Whatever happened to the store before, edges that are removed and stored again in the reverse order
are stored as they were. -/
theorem History.reinserts {gone : List Edge} (h : History s edges) (hnodup : gone.Nodup)
    (hthere : ∀ edge ∈ gone, s.containsEdge edge = true) : s.Reinserts gone := by
  obtain ⟨hremoved, hstored, hsame⟩ := h.placement_reinserted hnodup hthere
  obtain ⟨order, hs, _⟩ := h.recorded
  obtain ⟨_, hbare⟩ := History.callEach .removeEdge (fun _ _ => rfl) h gone
  obtain ⟨_, hafter⟩ := History.callEach .addEdge (fun _ _ => rfl) hbare gone.reverse
  obtain ⟨order', ht, _⟩ := hafter.recorded
  exact ⟨hremoved, hstored, keepsEdges_of_placement hs ht hsame⟩

/-! ### A node with two loops -/

def otherLoop : Edge := { selfEdge with serial := 2, id := .int 3, label := "other" }

/-- A store with the node and both edges. -/
def twiceLooped : Session := (Command.addEdge otherLoop).perform looped

theorem looped_open : looped.catalog.edgeHomes = (∅ : Std.HashMap Edge Home).insert selfEdge ⟨0, 0⟩ ∧
    looped.store.edges.kind = .mixed ∧ looped.store.labels.size = 1 ∧ looped.store.token = 0 := by
  rw [looped, perform_addNode_hub, Command.perform, Command.act, addEdge_selfEdge, placeEdge]
  simp only [bind_apply, onStore_apply, selfEdge, labels_add_lone]
  exact ⟨rfl, rfl, rfl, rfl⟩

theorem homesHere_looped : looped.HomesHere := by
  intro edge home hhome
  rw [looped_open.1, Std.HashMap.getElem?_insert] at hhome
  rw [looped_open.2.2.2]
  split at hhome
  · cases hhome
    rfl
  · rw [Std.HashMap.getElem?_empty] at hhome
    cases hhome

theorem history_twiceLooped : History twiceLooped [otherLoop, selfEdge] := by
  have hends : ∀ role, looped.containsNode (otherLoop.node role) = true := by
    intro role
    cases role <;> exact containsNode_looped
  have hadmits : looped.store.edges.kind.admits otherLoop.directed = true := by
    rw [looped_open.2.1]
    rfl
  have hfits : looped.store.labels.size < maxLabels := by
    rw [looped_open.2.2.1]
    decide
  have hadmissible :=
    history_looped.admissible (show otherLoop.id.isAbsent = false from rfl) homesHere_looped hends
      hadmits
    (by decide) (.inr hfits)
  exact (history_looped.edge_joins hadmissible (by decide) (by decide)).1

theorem reinserts_twiceLooped : History twiceLooped [otherLoop, selfEdge] ∧ [selfEdge, otherLoop].Nodup ∧
    twiceLooped.Reinserts [selfEdge, otherLoop] := by
  obtain ⟨order, hrecorded⟩ := history_twiceLooped.recorded
  have hnodup : [selfEdge, otherLoop].Nodup := by decide
  refine ⟨history_twiceLooped, hnodup, history_twiceLooped.reinserts hnodup fun edge hmem => ?_⟩
  exact (hrecorded.mem_iff edge).mp ((List.Perm.swap _ _ _).mem_iff.mp hmem)

end Session

end PropertyGraph

import PropertyGraph.Proofs.Adjacency
import PropertyGraph.Proofs.Observing.Watching

/-!
# Refused calls leave no trace

A call for one element, or for one view, checks everything before it writes anything. What it still
asks once it writes is never refused: a consistent session has a slot for what was checked, and the
edges at a node are stored where the node is. Only a call for several elements can stop midway.
-/

namespace PropertyGraph

namespace Arena.HasRoom

variable {α : Type} {a : Arena α}

theorem exists_allocWith (hroom : a.HasRoom) (h : a.Valid) (make : Nat → α) :
    ∃ slot a', a.allocWith make = (.ok slot, a') := by
  rcases h.allocWith_cases make with ⟨_, hgarbage, hlength⟩ | ⟨slot, a', halloc, _⟩
  · rcases hroom with hleft | hlt
    · exact absurd hgarbage hleft
    · omega
  · exact ⟨slot, a', halloc⟩

end Arena.HasRoom

/-- Whether a call is for one element, one label, one view or one observer, or for everything. The
other calls apply such a call to several elements in turn. -/
def Command.isSingle : Command → Bool
  | .addNodes _ | .removeNodes _ | .retainNodes _ | .addEdges _ | .removeEdges _ | .retainEdges _
  | .viewAddNodes _ _ => false
  | _ => true

namespace Action

variable {α β : Type} {a : Action α} {s : Session}

def Atomic (a : Action α) (s : Session) : Prop := ∀ fault, (a s).1 = .error fault → (a s).2 = s

namespace Atomic

theorem of_ok {x : α} (h : (a s).1 = .ok x) : a.Atomic s := by
  intro fault hfault
  rw [h] at hfault
  cases hfault

theorem of_snd (h : (a s).2 = s) : a.Atomic s := fun _ _ => h

theorem ask_bind {question : Session → Except Fault α} {f : α → Action β}
    (hrest : ∀ x, question s = .ok x → (f x).Atomic s) : (ask question >>= f).Atomic s := by
  intro fault hfault
  rw [bind_apply, ask_apply] at hfault ⊢
  cases hx : question s with
  | error fault => rfl
  | ok x =>
    rw [hx] at hfault
    exact hrest x hx fault hfault

theorem get_bind {f : Session → Action β} (hrest : (f s).Atomic s) : Atomic (get >>= f) s := by
  intro fault hfault
  rw [bind_apply] at hfault ⊢
  exact hrest fault hfault

theorem bind_accepted {f : α → Action β} (hfirst : a.Atomic s)
    (hrest : ∀ x s', ∃ y, (f x s').1 = .ok y) : (a >>= f).Atomic s := by
  intro fault hfault
  rw [bind_apply] at hfault ⊢
  cases h : a s with
  | mk answer s' =>
    cases answer with
    | error fault =>
      have hsame := hfirst fault
      rw [h] at hsame
      exact hsame rfl
    | ok x =>
      rw [h] at hfault
      obtain ⟨y, hy⟩ := hrest x s'
      rw [hy] at hfault
      cases hfault

end Atomic

end Action

namespace Session

open PropertyGraph.Action

variable {s s' : Session} {order : List Nat} {edges : List Edge} {node : Node} {edge other : Edge}
  {slot i : Nat} {α : Type}

/-! ### Nodes and edges -/

theorem atomic_addNode (hs : s.Consistent order) (node : Node) : (addNode node).Atomic s := by
  rcases addNode_cases hs node with ⟨answer, h⟩ | ⟨_, _, _, _, _, _, _, _, _, h⟩
  · exact .of_snd (by rw [h])
  · exact .of_ok (by rw [h])

/-- A label that is new stays registered if no slot is left for its edge, and only then. -/
theorem atomic_placeEdge (hs : s.Consistent order) (hroom : s.store.edges.arena.HasRoom)
    (edge : Edge) (source target : Nat) : (placeEdge edge source target).Atomic s := by
  rw [placeEdge]
  rcases hs.sound.addLabel edge.label with ⟨fault, hadd⟩ | ⟨label, labels, hadd, _⟩
  · refine .of_snd ?_
    simp only [bind_apply, onStore_apply, hadd]
  · obtain ⟨slot, arena, halloc⟩ := hroom.exists_allocWith hs.sound.edges_valid
      fun _ => { edge, ends := ⟨source, target⟩, label }
    refine .of_ok (x := true) ?_
    simp only [bind_apply, onStore_apply, change_apply, pure_apply, hadd, EdgeTable.add, Arena.alloc,
      halloc]

theorem atomic_addEdge (hs : s.Consistent order) (hroom : s.store.edges.arena.HasRoom) (edge : Edge) :
    (addEdge edge).Atomic s := by
  rcases addEdge_cases edge s with ⟨fault, h⟩ | ⟨h, _⟩ | ⟨source, target, _, _, _, _, h⟩
  · exact .of_snd (by rw [h])
  · exact .of_ok (by rw [h])
  · intro fault hfault
    rw [h] at hfault ⊢
    exact atomic_placeEdge hs hroom edge source target fault hfault

theorem atomic_removeEdge (edge : Edge) (s : Session) : (removeEdge edge).Atomic s := by
  rcases removeEdge_cases edge s with ⟨fault, _, h⟩ | ⟨_, h⟩ | ⟨slot, e, event, _, _, h⟩
  · exact .of_snd (by rw [h])
  · exact .of_ok (by rw [h])
  · exact .of_ok (by rw [h])

theorem removeEdge_of_stored (hs : s.Consistent order) (hedge : s.store.edge? i = some edge) :
    (removeEdge edge s).1 = .ok true := by
  obtain ⟨e, place, _, _, h⟩ := hs.exists_removeEdge_eq hedge
  rw [h]

theorem edge?_removeEdge_of_ne (hs : s.Consistent order) (hne : other ≠ edge)
    (hother : s.store.edge? i = some other) : (removeEdge edge s).2.store.edge? i = some other := by
  refine removeEdge_induction (P := (·.store.edge? i = some other)) hother fun slot e _ he heq => ?_
  have hi : i ≠ slot := by
    rintro rfl
    rw [Store.edge?_eq_some he, Option.some.injEq] at hother
    exact hne (hother.symm.trans heq)
  change (s.forgetEdge slot e).store.edge? i = some other
  rwa [edge?_forgetEdge hs.sound, if_neg hi]

theorem removeEach_of_stored (hs : s.Consistent order) (hnodup : edges.Nodup)
    (hstored : ∀ edge ∈ edges, ∃ i, s.store.edge? i = some edge) :
    (removeEach edges s).1 = .ok () ∧ (∃ order', (removeEach edges s).2.Consistent order') ∧
      ∀ other ∉ edges, ∀ i, s.store.edge? i = some other →
        (removeEach edges s).2.store.edge? i = some other := by
  induction edges generalizing s order with
  | nil => exact ⟨rfl, ⟨order, hs⟩, fun _ _ _ h => h⟩
  | cons edge rest ih =>
    obtain ⟨hnew, hnodup⟩ := List.nodup_cons.mp hnodup
    obtain ⟨i, hi⟩ := hstored edge List.mem_cons_self
    obtain ⟨order', _, hs'⟩ := (loses_removeEdge edge s order hs).exists_sublist
    have hkept : ∀ other ≠ edge, ∀ i, s.store.edge? i = some other →
        (removeEdge edge s).2.store.edge? i = some other :=
      fun other hne i h => edge?_removeEdge_of_ne hs hne h
    obtain ⟨hok, hleft, hothers⟩ := ih hs' hnodup fun other hother => by
      obtain ⟨j, hj⟩ := hstored other (List.mem_cons_of_mem edge hother)
      exact ⟨j, hkept other (by rintro rfl; exact hnew hother) j hj⟩
    rw [removeEach_cons, removeEdge_of_stored hs hi]
    refine ⟨hok, hleft, fun other hother j hj => ?_⟩
    rw [List.mem_cons, not_or] at hother
    exact hothers other hother.2 j (hkept other hother.1 j hj)

theorem incidentEdges_stored (hs : s.Consistent order) (hnode : s.store.node? slot = some node) :
    (s.incidentEdges slot).Nodup ∧
      ∀ edge ∈ s.incidentEdges slot, ∃ i, s.store.edge? i = some edge := by
  obtain ⟨N, hN, _⟩ := Option.map_eq_some_iff.mp hnode
  rw [incidentEdges, hN]
  constructor
  · exact (hs.sound.nodup_incident hN).filterMap fun _ _ _ hi hj => hs.edge_unique hi hj
  · intro edge hedge
    obtain ⟨i, _, hi⟩ := List.mem_filterMap.mp hedge
    exact ⟨i, hi⟩

/-- What removing a node goes through: every edge at the node is removed, then the node is dropped,
and then the removal is counted and told. No step of this is refused. -/
structure Removable (s : Session) (node : Node) (slot : Nat) : Prop where
  edge_removed : ∀ before edge after, s.incidentEdges slot = before ++ edge :: after →
    (removeEach before s).1 = .ok () ∧ (removeEdge edge (removeEach before s).2).1 = .ok true
  composed : ∃ left, dropNode node ((removeEach (s.incidentEdges slot) s).2.withStore fun store =>
      { store with views := store.views.map (·.forgetNode slot) }) = (.ok true, left) ∧
    removeNode node s =
      (.ok true, (left.bumpIf true false).tell (.nodeRemoved node (left.catalog.nodeSlot? node)))

theorem removable (hs : s.Consistent order) (hnode : s.nodeSlot? node = .ok (some slot)) :
    s.Removable node slot := by
  have hstored := node?_of_nodeSlot? hnode
  obtain ⟨hnodup, hedges⟩ := incidentEdges_stored hs hstored
  obtain ⟨hok, ⟨order', hs'⟩, _⟩ := removeEach_of_stored hs hnodup hedges
  have hleft := (node?_removeEach (s.incidentEdges slot) s slot).trans hstored
  refine ⟨fun before edge after hsplit => ?_, _, dropNode_forgotten hs' hleft, ?_⟩
  · rw [hsplit] at hnodup hedges
    obtain ⟨hbefore, _, hdisjoint⟩ := List.nodup_append.mp hnodup
    have hmem : edge ∈ edge :: after := List.mem_cons_self
    obtain ⟨hok, ⟨order', hs'⟩, hothers⟩ := removeEach_of_stored hs hbefore fun other hother =>
      hedges other (List.mem_append_left _ hother)
    obtain ⟨i, hi⟩ := hedges edge (List.mem_append_right _ hmem)
    have hnew : edge ∉ before := fun hold => hdisjoint edge hold edge hmem rfl
    exact ⟨hok, removeEdge_of_stored hs' (hothers edge hnew i hi)⟩
  · have hremoved : removeEach (s.incidentEdges slot) s =
        (.ok (), (removeEach (s.incidentEdges slot) s).2) := Prod.ext hok rfl
    rw [removeNode]
    simp only [bind_apply, ask_apply, get_apply, hnode]
    rw [← removeEach, hremoved]
    simp only [bind_apply, change_apply, discard_eq, pure_apply, dropNode_forgotten hs' hleft]

/-- A node that is stored can be removed, first the edges at it and then the node. -/
theorem Consistent.removeNode_of_stored (hs : s.Consistent order)
    (hnode : s.nodeSlot? node = .ok (some slot)) : ∃ place, removeNode node s =
      (.ok true, (((removeEach (s.incidentEdges slot) s).2.forgetNode slot node).bumpIf true
        false).tell (.nodeRemoved node place)) := by
  obtain ⟨left, hdropped, hremoved⟩ := (removable hs hnode).composed
  have hstored := node?_of_nodeSlot? hnode
  obtain ⟨order', _, hs'⟩ := (loses_removeEach (s.incidentEdges slot) s order hs).exists_sublist
  have hleft := (node?_removeEach (s.incidentEdges slot) s slot).trans hstored
  rw [dropNode_forgotten hs' hleft, Prod.mk.injEq] at hdropped
  obtain ⟨_, rfl⟩ := hdropped
  exact ⟨_, hremoved⟩

theorem atomic_removeNode (hs : s.Consistent order) (node : Node) : (removeNode node).Atomic s := by
  cases hnode : s.nodeSlot? node with
  | error fault => exact .of_snd (by rw [removeNode, bind_apply, ask_apply, hnode])
  | ok home =>
    cases home with
    | none => exact .of_snd (by rw [removeNode, bind_apply, ask_apply, hnode]; rfl)
    | some slot =>
      obtain ⟨left, _, hremoved⟩ := (removable hs hnode).composed
      exact .of_ok (by rw [hremoved])

/-! ### Labels -/

theorem atomic_addLabel (hs : s.Consistent order) (label : String) : (addLabel label).Atomic s := by
  rcases hs.sound.addLabel label with ⟨fault, hadd⟩ | ⟨id, labels, hadd, _⟩
  · exact .of_snd (by rw [addLabel, onStore_apply, hadd])
  · exact .of_ok (x := id) (by rw [addLabel, onStore_apply, hadd])

theorem atomic_removeLabel (label : String) (s : Session) : (removeLabel label).Atomic s := by
  rw [removeLabel]
  refine .get_bind ?_
  by_cases hused : 0 < s.edgeCountOf label
  · simp only [hused, if_true]
    exact .of_snd rfl
  · simp only [hused, if_false]
    exact .of_ok rfl

theorem atomic_removeLabelId (id : Int) (s : Session) : (removeLabelId id).Atomic s := by
  rw [removeLabelId]
  refine .get_bind ?_
  by_cases hused : 0 < s.edgeCountOfId id
  · simp only [hused, if_true]
    exact .of_snd rfl
  · simp only [hused, if_false]
    exact .of_ok rfl

/-! ### Views -/

theorem atomic_placeView (hs : s.Consistent order) (hierarchical : Bool) (base : Option ViewRecord) :
    (placeView hierarchical base).Atomic s := by
  refine .get_bind (.bind_accepted ?_ fun _ _ => ⟨_, rfl⟩)
  rcases hs.views_valid.allocWith_cases _ with ⟨hfull, _⟩ | ⟨slot, arena, halloc, _⟩
  · exact .of_snd (by rw [onStore_apply, hfull])
  · exact .of_ok (x := slot) (by rw [onStore_apply, halloc])

theorem atomic_destroyView (view : View) (s : Session) : (destroyView view).Atomic s :=
  .ask_bind fun _ _ => .of_ok rfl

theorem atomic_setVisibleView (view : Option View) (s : Session) : (setVisibleView view).Atomic s := by
  rcases setVisibleView_cases view s with ⟨_, _, _, _, h⟩ | ⟨_, h⟩
  · exact .of_snd (by rw [h])
  · exact .of_ok (by rw [h])

theorem atomic_editView (view : View) (edit : ViewRecord → Except Fault (α × ViewRecord))
    (s : Session) : (editView view edit).Atomic s := by
  rcases editView_cases view edit s with ⟨fault, h⟩ | ⟨r, answer, r', _, _, h⟩
  · exact .of_snd (by rw [h])
  · exact .of_ok (by rw [h])

theorem atomic_createObserver (view : Option View) (keepsDiff : Bool) (s : Session) :
    (createObserver view keepsDiff).Atomic s := by
  rcases createObserver_cases view keepsDiff s with ⟨fault, h⟩ | ⟨s', version, h, _⟩
  · exact .of_snd (by rw [h])
  · exact .of_ok (by rw [h])

theorem atomic_poll (observer : Observer) (s : Session) : (poll observer).Atomic s := by
  rcases poll_cases observer s with ⟨fault, _, h⟩ | ⟨_, _, _, _, h, _⟩
  · exact .of_snd (by rw [h])
  · exact .of_ok (by rw [h])

/-! ### All calls -/

/-- A call for one element, one label, one view or one observer is refused before it writes. -/
theorem atomic_act (hs : s.Consistent order) (hroom : s.store.edges.arena.HasRoom)
    (command : Command) (hsingle : command.isSingle = true) : command.act.Atomic s := by
  cases command with
  | addNode node => exact atomic_addNode hs node
  | removeNode node => exact atomic_removeNode hs node
  | addEdge edge => exact atomic_addEdge hs hroom edge
  | removeEdge edge => exact atomic_removeEdge edge s
  | addNodes | removeNodes | retainNodes | addEdges | removeEdges | retainEdges | viewAddNodes =>
    cases hsingle
  | addLabel label => exact atomic_addLabel hs label
  | removeLabel label => exact atomic_removeLabel label s
  | removeLabelId id => exact atomic_removeLabelId id s
  | createView hierarchical => exact atomic_placeView hs hierarchical none
  | createViewFrom base =>
    exact .ask_bind fun record _ => atomic_placeView hs base.hierarchical (some record)
  | destroyView view => exact atomic_destroyView view s
  | setVisibleView view => exact atomic_setVisibleView view s
  | fillView view => exact .get_bind (atomic_editView view _ s)
  | clearView view => exact atomic_editView view _ s
  | viewAddNode view node => exact .ask_bind fun _ _ => atomic_editView view _ s
  | viewAddEdge view edge => exact .ask_bind fun _ _ => atomic_editView view _ s
  | viewRemoveNode view node =>
    exact .ask_bind fun _ _ => .get_bind (atomic_editView view _ s)
  | viewRemoveEdge view edge => exact .ask_bind fun _ _ => atomic_editView view _ s
  | viewUnion view other => exact .ask_bind fun _ _ => atomic_editView view _ s
  | viewIntersection view other => exact .ask_bind fun _ _ => atomic_editView view _ s
  | viewComplement view => exact .get_bind (atomic_editView view _ s)
  | setViewInterval view interval => exact atomic_editView view _ s
  | setViewAttribute view name value => exact atomic_editView view _ s
  | removeViewAttribute view name => exact atomic_editView view _ s
  | group view node members =>
    exact .ask_bind fun _ _ => .ask_bind fun _ _ => atomic_editView view _ s
  | ungroup view node => exact .ask_bind fun _ _ => atomic_editView view _ s
  | collapse view node => exact .ask_bind fun _ _ => atomic_editView view _ s
  | expand view node => exact .ask_bind fun _ _ => atomic_editView view _ s
  | createObserver view keepsDiff => exact atomic_createObserver view keepsDiff s
  | poll observer => exact atomic_poll observer s
  | unregisterListener listener => exact .of_ok rfl
  | clear | clearEdges | detachObserver | registerListener | setDefaults => exact .of_ok rfl

/-- At every point of a history a call for one element that is refused has changed nothing, and
removing a stored node is not refused midway. -/
theorem History.single_atomic (h : History s edges) (hroom : s.store.edges.arena.HasRoom) :
    (∀ command : Command, command.isSingle = true → ∀ fault,
      (command.act s).1 = .error fault → command.act s = (.error fault, s)) ∧
    ∀ node slot, s.nodeSlot? node = .ok (some slot) → s.Removable node slot := by
  obtain ⟨order, hrecorded⟩ := h.recorded
  refine ⟨fun command hsingle fault hfault => ?_, fun node slot => removable hrecorded.consistent⟩
  exact Prod.ext hfault (atomic_act hrecorded.consistent hroom command hsingle fault hfault)

def twin : Node := { serial := 7, id := .int 1 }

theorem looped_kept : looped.catalog.nodeHomes = lone.catalog.nodeHomes ∧
    looped.store.nodes.ids = lone.store.nodes.ids ∧ looped.store.token = 0 ∧
    looped.store.edges.arena.length = 1 := by
  rw [looped, perform_addNode_hub, Command.perform, Command.act, addEdge_selfEdge, placeEdge]
  simp only [bind_apply, onStore_apply, selfEdge, labels_add_lone]
  exact ⟨rfl, rfl, rfl, rfl⟩

theorem addNode_twin : ((Command.addNode twin).act looped).1 = .error (.nodeIdTaken (.int 1)) := by
  obtain ⟨hhomes, hids, _, _⟩ := looped_kept
  have hfresh : looped.nodeSlot? twin = .ok none := by
    rw [nodeSlot?, hhomes]
    simp [lone, twin, hub]
  have htaken : looped.store.nodes.ids.contains twin.id = true := by
    rw [hids]
    simp [lone, twin]
  have hpresent : twin.id.isAbsent = false := rfl
  rw [Command.act, addNode]
  simp only [bind_apply, ask_apply, get_apply, hpresent, hfresh, htaken, Option.isSome_none,
    Bool.false_eq_true, if_false, if_true, throw_apply]
  rfl

theorem single_atomic_looped :
    History looped [selfEdge] ∧ looped.store.edges.arena.HasRoom ∧
      (Command.addNode twin).act looped = (.error (.nodeIdTaken (.int 1)), looped) ∧
      looped.Removable hub 0 := by
  have hroom : looped.store.edges.arena.HasRoom := by
    refine .inr ?_
    rw [looped_kept.2.2.2]
    decide
  have hhub : looped.nodeSlot? hub = .ok (some 0) := by
    obtain ⟨order, hrecorded⟩ := history_looped.recorded
    exact hrecorded.consistent.nodeSlot?_eq (by rw [Store.node?, get?_looped.1]; rfl)
  obtain ⟨hatomic, hremovable⟩ := history_looped.single_atomic hroom
  exact ⟨history_looped, hroom, hatomic (.addNode twin) rfl _ addNode_twin, hremovable hub 0 hhub⟩

end Session

end PropertyGraph

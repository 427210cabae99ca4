import PropertyGraph.Proofs.Session.Consistent
import PropertyGraph.Proofs.Session.Run

/-!
# What leaves a store

Removing nodes and edges moves nothing else, and what leaves the store leaves the views with it. The
edges that remain are in the order in which they were.
-/

namespace PropertyGraph

namespace Session

open PropertyGraph.Action

variable {s s' s'' : Session} {order order' : List Nat} {node : Node} {edge : Edge} {slot : Nat}
  {e : EdgeSlot}

def nodeLeft (s s' : Session) (n : Nat) : Bool :=
  (s.store.node? n).isSome && (s'.store.node? n).isNone

def edgeLeft (s s' : Session) (i : Nat) : Bool :=
  (s.store.fixed? i).isSome && (s'.store.fixed? i).isNone

/-- From a session whose edges are in the given order, another in which nothing is new. -/
structure LosesFrom (order : List Nat) (s s' : Session) : Prop where
  node_of : ∀ n node, s'.store.node? n = some node → s.store.node? n = some node
  edge_of : ∀ i x, s'.store.fixed? i = some x → s.store.fixed? i = some x
  record_of : ∀ slot r', s'.store.views.arena.get? slot = some r' →
    ∃ r, s.store.views.arena.get? slot = some r ∧
      ViewRecord.Shrunk (s.nodeLeft s') (s.edgeLeft s') r r'
  exists_sublist : ∃ order' : List Nat, order'.Sublist order ∧ s'.Consistent order'

/-- Nothing comes. -/
def Loses (s s' : Session) : Prop := ∀ order, s.Consistent order → LosesFrom order s s'

section Left

variable {α : Type} {a b c : Option α} {gone : Bool}

theorem left_trans (hb : ∀ x, b = some x → a = some x) (hc : ∀ x, c = some x → b = some x) :
    (a.isSome && c.isNone) = ((a.isSome && b.isNone) || (b.isSome && c.isNone)) := by
  cases a <;> cases b <;> cases c <;> simp_all

theorem left_eq (hb : b = if gone then none else a) (hgone : gone = true → a.isSome) :
    (a.isSome && b.isNone) = gone := by
  subst hb
  cases gone with
  | true =>
    rw [hgone rfl]
    rfl
  | false => cases a <;> rfl

theorem eq_of_not_left (hb : ∀ x, b = some x → a = some x) (ha : a.isSome)
    (hstays : (a.isSome && b.isNone) = false) : b = a := by
  rw [ha, Bool.true_and, Option.isNone_eq_false_iff, Option.isSome_iff_exists] at hstays
  obtain ⟨x, hx⟩ := hstays
  rw [hx, hb x hx]

end Left

namespace Loses

theorem of_quiet (h : Quiet s s') : Loses s s' := by
  intro order hs
  refine ⟨fun n node hn => ?_, fun i x hx => ?_, fun slot r' hr' => ⟨r', ?_, ?_⟩, order, .refl order,
    h.consistent hs⟩
  · rwa [← h.node?_eq]
  · rwa [← h.fixed?_eq]
  · rwa [← h.views]
  · have hnodes : s.nodeLeft s' = fun _ => false := funext fun n => left_eq (h.node?_eq n) nofun
    have hedges : s.edgeLeft s' = fun _ => false := funext fun i => left_eq (h.fixed?_eq i) nofun
    rw [hnodes, hedges]
    exact .refl r'

theorem refl (s : Session) : Loses s s := of_quiet (.refl s)

theorem trans (h : Loses s s') (h' : Loses s' s'') : Loses s s'' := by
  intro order hs
  obtain ⟨hnode, hedge, hrecord, order', hsub, hs'⟩ := h order hs
  obtain ⟨hnode', hedge', hrecord', order'', hsub', hs''⟩ := h' order' hs'
  refine ⟨fun n node hn => hnode n node (hnode' n node hn), fun i x hx => hedge i x (hedge' i x hx),
    fun slot r'' hr'' => ?_, order'', hsub'.trans hsub, hs''⟩
  obtain ⟨r', hr', hshrunk'⟩ := hrecord' slot r'' hr''
  obtain ⟨r, hr, hshrunk⟩ := hrecord slot r' hr'
  have hnodes : s.nodeLeft s'' = fun n => s.nodeLeft s' n || s'.nodeLeft s'' n :=
    funext fun n => left_trans (hnode n) (hnode' n)
  have hedges : s.edgeLeft s'' = fun i => s.edgeLeft s' i || s'.edgeLeft s'' i :=
    funext fun i => left_trans (hedge i) (hedge' i)
  rw [hnodes, hedges]
  exact ⟨r, hr, hshrunk.trans hshrunk'⟩

theorem told (h : Loses s s') (nodes edges : Bool) (event : Event) :
    Loses s ((s'.bumpIf nodes edges).tell event) :=
  (h.trans (of_quiet (quiet_bumpIf s' nodes edges))).trans (of_quiet (quiet_tell _ event))

end Loses

theorem LosesFrom.of_forget {gone lost : Nat → Bool} {f : ViewRecord → ViewRecord}
    (hs : s.Consistent order) (hsub : order'.Sublist order) (hsound : s'.store.Sound order')
    (htoken : s'.store.token = s.store.token)
    (hviews : s'.store.views.arena = s.store.views.arena.map f)
    (hnode : ∀ n, s'.store.node? n = if gone n then none else s.store.node? n)
    (hfixed : ∀ i, s'.store.fixed? i = if lost i then none else s.store.fixed? i)
    (hgone : ∀ n, gone n = true → (s.store.node? n).isSome)
    (hlost : ∀ i, lost i = true → (s.store.fixed? i).isSome)
    (hnodeHome : ∀ n node, gone n = false → s.store.node? n = some node →
      s'.catalog.nodeHomes[node]? = s.catalog.nodeHomes[node]?)
    (hedgeHome : ∀ i edge, lost i = false → s.store.edge? i = some edge →
      s'.catalog.edgeHomes[edge]? = s.catalog.edgeHomes[edge]?)
    (hclosed : ∀ r, r.Closed s.store → (f r).Closed s'.store)
    (hshrunk : ∀ r, r.Closed s.store → ViewRecord.Shrunk gone lost r (f r)) :
    LosesFrom order s s' := by
  have hnode' : ∀ n node, s'.store.node? n = some node →
      gone n = false ∧ s.store.node? n = some node := by
    intro n node hn
    rwa [hnode, Option.ite_none_left_eq_some, Bool.not_eq_true] at hn
  have hfixed' : ∀ i x, s'.store.fixed? i = some x → lost i = false ∧ s.store.fixed? i = some x := by
    intro i x hx
    rwa [hfixed, Option.ite_none_left_eq_some, Bool.not_eq_true] at hx
  have hs' : s'.Consistent order' := by
    constructor
    case sound => exact hsound
    case node_home =>
      intro n node hn
      obtain ⟨hkept, hn⟩ := hnode' n node hn
      rw [hnodeHome n node hkept hn, htoken]
      exact hs.node_home n node hn
    case edge_home =>
      intro i edge hi
      rw [Store.edge?_eq, Option.map_eq_some_iff] at hi
      obtain ⟨x, hx, rfl⟩ := hi
      obtain ⟨hkept, hx⟩ := hfixed' i x hx
      have hi : s.store.edge? i = some x.1 := Store.edge?_of_fixed? hx
      rw [hedgeHome i x.1 hkept hi, htoken]
      exact hs.edge_home i x.1 hi
    case views_valid =>
      rw [hviews]
      exact hs.views_valid.map
    case closed =>
      intro slot r' hr'
      rw [hviews, Arena.get?_map, Option.map_eq_some_iff] at hr'
      obtain ⟨r, hr, rfl⟩ := hr'
      exact hclosed r (hs.closed slot r hr)
  refine ⟨fun n node hn => (hnode' n node hn).2, fun i x hx => (hfixed' i x hx).2,
    fun slot r' hr' => ?_, order', hsub, hs'⟩
  rw [hviews, Arena.get?_map, Option.map_eq_some_iff] at hr'
  obtain ⟨r, hr, rfl⟩ := hr'
  have hnodes : s.nodeLeft s' = gone := funext fun n => left_eq (hnode n) (hgone n)
  have hedges : s.edgeLeft s' = lost := funext fun i => left_eq (hfixed i) (hlost i)
  rw [hnodes, hedges]
  exact ⟨r, hr, hshrunk r (hs.closed slot r hr)⟩

/-! ### Edges -/

def forgetEdge (s : Session) (slot : Nat) (e : EdgeSlot) : Session :=
  (((s.withStore (·.unlink slot e)).withCatalog (·.unbindEdge e.edge)).withStore
    fun store => { store with views := store.views.map (·.forgetEdge slot) })

theorem node?_forgetEdge {n : Nat} : (s.forgetEdge slot e).store.node? n = s.store.node? n :=
  Store.node?_unlink

theorem fixed?_forgetEdge {i : Nat} (hs : s.store.Sound order) :
    (s.forgetEdge slot e).store.fixed? i = if i = slot then none else s.store.fixed? i :=
  Store.fixed?_unlink hs

theorem edge?_forgetEdge {i : Nat} (hs : s.store.Sound order) :
    (s.forgetEdge slot e).store.edge? i = if i = slot then none else s.store.edge? i := by
  rw [Store.edge?_eq, fixed?_forgetEdge hs, Store.edge?_eq]
  split <;> rfl

theorem loses_forgetEdge (he : s.store.edges.get? slot = some e) : Loses s (s.forgetEdge slot e) := by
  intro order hs
  have hslot : s.store.fixed? slot = some e.fixed := by
    rw [Store.fixed?, he, Option.map_some]
  refine .of_forget (f := (·.forgetEdge slot)) hs (List.erase_sublist (a := slot))
    ((hs.sound.removeEdge he).of_eq rfl rfl rfl) Store.token_unlink ?_ (fun n => node?_forgetEdge)
    (fun i => (fixed?_forgetEdge hs.sound).trans ?_) (fun n hn => by cases hn) ?_
    (fun _ _ _ _ => rfl) ?_ (fun r hr => hr.forgetEdge (fun n => node?_forgetEdge) ?_)
    fun r _ => .forgetEdge
  · change ((s.store.unlink slot e).views.map _).arena = _
    rw [Store.views_unlink]
    rfl
  · by_cases hi : i = slot <;> simp [hi]
  · intro i hi
    rw [beq_iff_eq] at hi
    rw [hi, hslot]
    rfl
  · intro i edge hi hedge
    change (s.catalog.edgeHomes.erase e.edge)[edge]? = _
    have hne : e.edge ≠ edge := by
      rintro rfl
      have hsame : slot = i := hs.edge_unique (Store.edge?_eq_some he) hedge
      rw [hsame, beq_self_eq_true] at hi
      cases hi
    rw [Std.HashMap.getElem?_erase, if_neg (by simpa using hne)]
  · intro i hi
    rw [fixed?_forgetEdge hs.sound, if_neg hi]

theorem removeEdge_cases (edge : Edge) (s : Session) :
    (∃ fault, s.edgeSlot? edge = .error fault ∧ removeEdge edge s = (.error fault, s)) ∨
    (s.edgeSlot? edge = .ok none ∧ removeEdge edge s = (.ok false, s)) ∨
    ∃ slot e place, s.store.edges.get? slot = some e ∧ e.edge = edge ∧
      removeEdge edge s =
        (.ok true, ((s.forgetEdge slot e).bumpIf false true).tell (.edgeRemoved edge place)) := by
  rw [removeEdge]
  simp only [bind_apply, ask_apply]
  cases hslot : s.edgeSlot? edge with
  | error fault => exact .inl ⟨fault, rfl, rfl⟩
  | ok home =>
    cases home with
    | none => exact .inr (.inl ⟨rfl, rfl⟩)
    | some slot =>
      obtain ⟨e, he, rfl⟩ := Option.map_eq_some_iff.mp (edge?_of_edgeSlot? hslot)
      refine .inr (.inr ⟨slot, e, (s.forgetEdge slot e).catalog.edgeSlot? e.edge, he, rfl, ?_⟩)
      simp only [bind_apply, change_apply, pure_apply, dropEdge, he]
      rfl

theorem Consistent.exists_removeEdge_eq (hs : s.Consistent order)
    (hedge : s.store.edge? slot = some edge) :
    ∃ e place, s.store.edges.get? slot = some e ∧ e.edge = edge ∧ removeEdge edge s =
      (.ok true, ((s.forgetEdge slot e).bumpIf false true).tell (.edgeRemoved edge place)) := by
  have hslot := hs.edgeSlot?_eq hedge
  rcases removeEdge_cases edge s with
    ⟨fault, hforeign, _⟩ | ⟨hgone, _⟩ | ⟨found, e, place, he, rfl, h⟩
  · rw [hslot] at hforeign
    cases hforeign
  · rw [hslot] at hgone
    cases hgone
  · obtain rfl : found = slot := hs.edge_unique (Store.edge?_eq_some he) hedge
    exact ⟨e, place, he, rfl, h⟩

theorem removeEdge_induction {P : Session → Prop} (hnone : P s)
    (hforget : ∀ slot e place, s.store.edges.get? slot = some e → e.edge = edge →
      P (((s.forgetEdge slot e).bumpIf false true).tell (.edgeRemoved edge place))) :
    P (removeEdge edge s).2 := by
  rcases removeEdge_cases edge s with ⟨fault, _, h⟩ | ⟨_, h⟩ | ⟨slot, e, place, he, hedge, h⟩
  · rw [h]
    exact hnone
  · rw [h]
    exact hnone
  · rw [h]
    exact hforget slot e place he hedge

theorem loses_removeEdge (edge : Edge) (s : Session) : Loses s (removeEdge edge s).2 :=
  removeEdge_induction (.refl s) fun _ _ _ he _ => (loses_forgetEdge he).told _ _ _

theorem node?_removeEdge (n : Nat) : (removeEdge edge s).2.store.node? n = s.store.node? n :=
  removeEdge_induction (P := fun s' => s'.store.node? n = s.store.node? n) rfl
    fun _ _ _ _ _ => node?_forgetEdge

theorem containsEdge_removeEdge (hs : s.Consistent order) {done : Bool}
    (hdone : (removeEdge edge s).1 = .ok done) :
    (removeEdge edge s).2.containsEdge edge = false := by
  rcases removeEdge_cases edge s with ⟨fault, _, h⟩ | ⟨hslot, h⟩ | ⟨slot, e, event, he, rfl, h⟩
  · rw [h] at hdone
    cases hdone
  · rw [h, containsEdge, hslot]
    rfl
  · obtain ⟨_, hedge, _, order', _, hs'⟩ := loses_removeEdge e.edge s order hs
    rw [← Bool.not_eq_true, hs'.containsEdge_iff]
    rintro ⟨i, hi⟩
    rw [Store.edge?_eq, Option.map_eq_some_iff] at hi
    obtain ⟨x, hx, hxe⟩ := hi
    have hi : s.store.edge? i = some e.edge := by rw [Store.edge?_eq, hedge i x hx, Option.map_some, hxe]
    have hsame : i = slot := hs.edge_unique hi (Store.edge?_eq_some he)
    have hnone : (removeEdge e.edge s).2.store.fixed? i = none := by
      rw [h, hsame]
      exact (fixed?_forgetEdge hs.sound).trans (if_pos rfl)
    rw [hnone] at hx
    cases hx

/-! ### Nodes -/

/-- Removing edges one after the other, up to the first refusal. -/
def removeEach (edges : List Edge) : Action Unit := edges.forM fun edge => discard (removeEdge edge)

theorem removeEach_cons (edge : Edge) (rest : List Edge) (s : Session) :
    removeEach (edge :: rest) s =
      match (removeEdge edge s).1 with
      | .error fault => (.error fault, (removeEdge edge s).2)
      | .ok _ => removeEach rest (removeEdge edge s).2 := by
  change ((discard (removeEdge edge) >>= fun _ => removeEach rest) : Action Unit) s = _
  rw [bind_apply, discard_eq, bind_apply]
  rcases removeEdge edge s with ⟨answer, s'⟩
  cases answer <;> rfl

/-- What the removal of any edge does, the removal of several does: the first refusal ends it, but
what was done by then stays done. -/
theorem removeEach_induction {R : Session → Session → Prop} (hrefl : ∀ s, R s s)
    (htrans : ∀ {s s' s''}, R s s' → R s' s'' → R s s'')
    (hstep : ∀ edge s, R s (removeEdge edge s).2) (edges : List Edge) (s : Session) :
    R s (removeEach edges s).2 := by
  induction edges generalizing s with
  | nil => exact hrefl s
  | cons edge rest ih =>
    rw [removeEach_cons]
    cases (removeEdge edge s).1 with
    | error fault => exact hstep edge s
    | ok done => exact htrans (hstep edge s) (ih _)

theorem loses_removeEach (edges : List Edge) (s : Session) : Loses s (removeEach edges s).2 :=
  removeEach_induction .refl .trans loses_removeEdge edges s

theorem node?_removeEach (edges : List Edge) (s : Session) (n : Nat) :
    (removeEach edges s).2.store.node? n = s.store.node? n :=
  removeEach_induction (R := fun s s' => s'.store.node? n = s.store.node? n) (fun _ => rfl)
    (fun h h' => h'.trans h) (fun _ _ => node?_removeEdge n) edges s

theorem Consistent.removeEach_induction {R : Session → Session → Prop} (hrefl : ∀ s, R s s)
    (htrans : ∀ {s s' s''}, R s s' → R s' s'' → R s s'')
    (hstep : ∀ {s order}, s.Consistent order → ∀ edge, R s (removeEdge edge s).2)
    (hs : s.Consistent order) (edges : List Edge) : R s (removeEach edges s).2 := by
  have hdone : ∀ order, s.Consistent order →
      R s (removeEach edges s).2 ∧ ∃ order', (removeEach edges s).2.Consistent order' := by
    refine Session.removeEach_induction (R := fun s s' => ∀ order, s.Consistent order →
      R s s' ∧ ∃ order', s'.Consistent order') (fun s order hs => ⟨hrefl s, order, hs⟩)
      (fun h h' order hs => ?_) (fun edge s order hs => ?_) edges s
    · obtain ⟨hfirst, order', hs'⟩ := h order hs
      obtain ⟨hsecond, hs''⟩ := h' order' hs'
      exact ⟨htrans hfirst hsecond, hs''⟩
    · obtain ⟨order', _, hs'⟩ := (loses_removeEdge edge s order hs).exists_sublist
      exact ⟨hstep hs edge, order', hs'⟩
  exact (hdone order hs).1

theorem edge?_removeEach {edges : List Edge} (hs : s.Consistent order)
    (hdone : (removeEach edges s).1 = .ok ()) (hmem : edge ∈ edges) (i : Nat) :
    (removeEach edges s).2.store.edge? i ≠ some edge := by
  induction edges generalizing s order with
  | nil => cases hmem
  | cons first rest ih =>
    rw [removeEach_cons] at hdone ⊢
    cases hfst : (removeEdge first s).1 with
    | error fault =>
      rw [hfst] at hdone
      cases hdone
    | ok done =>
      rw [hfst] at hdone
      simp only at hdone ⊢
      obtain ⟨_, _, _, order', _, hs'⟩ := loses_removeEdge first s order hs
      by_cases hrest : edge ∈ rest
      · exact ih hs' hdone hrest
      · have hfirst : edge = first := (List.mem_cons.mp hmem).resolve_right hrest
        intro hi
        obtain ⟨_, hedge, _⟩ := loses_removeEach rest _ order' hs'
        rw [Store.edge?_eq, Option.map_eq_some_iff] at hi
        obtain ⟨x, hx, hxe⟩ := hi
        have hstored : (removeEdge first s).2.containsEdge first = true :=
          hs'.containsEdge_iff.mpr ⟨i, by rw [Store.edge?_eq, hedge i x hx, Option.map_some, hxe, hfirst]⟩
        rw [containsEdge_removeEdge hs hfst] at hstored
        cases hstored

/-- The views forget a node, and it is taken out of its slot and unbound. -/
def forgetNode (s : Session) (slot : Nat) (node : Node) : Session :=
  ((s.withStore fun store => { store with views := store.views.map (·.forgetNode slot) }).withStore
    fun store => { store with nodes := store.nodes.remove node slot }).withCatalog (·.unbindNode node)

theorem node?_forgetNode {n : Nat} (hs : s.store.Sound order) :
    (s.forgetNode slot node).store.node? n = if n = slot then none else s.store.node? n := by
  change ((s.store.nodes.arena.free slot).2.get? n).map _ = _
  rw [hs.nodes_valid.get?_free]
  split <;> rfl

theorem loses_forgetNode (hnode : s.store.node? slot = some node)
    (hbare : ∀ i x p, s.store.fixed? i = some x → x.2.1.get p ≠ slot) :
    Loses s (s.forgetNode slot node) := by
  intro order hs
  have hvalid := hs.sound.nodes_valid
  have hget : ∀ n, (s.store.nodes.remove node slot).get? n =
      if n = slot then none else s.store.nodes.get? n := fun n => hvalid.get?_free
  have hnode' : ∀ n, (s.forgetNode slot node).store.node? n =
      if n = slot then none else s.store.node? n := fun n => node?_forgetNode hs.sound
  have hbare' : ∀ i x p, s.store.plain? i = some x → x.ends.get p ≠ slot := by
    intro i x p hx
    exact hbare i x.fixed p (by rw [Store.fixed?_eq, hx, Option.map_some])
  refine .of_forget (f := (·.forgetNode slot)) hs (List.Sublist.refl order)
    ((hs.sound.removeNode (hvalid.free slot) hbare' hget).of_eq rfl rfl rfl) rfl rfl
    (fun n => (hnode' n).trans ?_) (fun i => (if_neg Bool.false_ne_true).symm) ?_
    (fun i hi => by cases hi) ?_ (fun _ _ _ _ => rfl)
    (fun r hr => hr.forgetNode (fun n hn => ?_) (fun _ => rfl) hbare) fun r hr => .forgetNode hr
  · by_cases hn : n = slot <;> simp [hn]
  · intro n hn
    rw [beq_iff_eq] at hn
    rw [hn, hnode]
    rfl
  · intro n other hn hother
    change (s.catalog.nodeHomes.erase node)[other]? = _
    have hne : node ≠ other := by
      rintro rfl
      rw [hs.node_unique hnode hother, beq_self_eq_true] at hn
      cases hn
    rw [Std.HashMap.getElem?_erase, if_neg (by simpa using hne)]
  · rw [hnode' n, if_neg hn]

theorem mem_incidentEdges (hs : s.Consistent order) {x : Edge × Sides Nat × Nat} {i : Nat} {p : Phase}
    (hnode : s.store.node? slot = some node) (hx : s.store.fixed? i = some x)
    (hend : x.2.1.get p = slot) : x.1 ∈ s.incidentEdges slot := by
  obtain ⟨N, hN, _⟩ := Option.map_eq_some_iff.mp hnode
  rw [incidentEdges, hN]
  exact List.mem_filterMap.mpr ⟨i, hs.sound.mem_incident hN hx hend, by rw [Store.edge?_eq, hx]; rfl⟩

theorem bare_of_removeEach (hs : s.Consistent order) (hnode : s.store.node? slot = some node)
    (hremoved : removeEach (s.incidentEdges slot) s = (.ok (), s')) (i : Nat)
    (x : Edge × Sides Nat × Nat) (p : Phase) (hx : s'.store.fixed? i = some x) :
    x.2.1.get p ≠ slot := by
  intro hend
  have hloses := loses_removeEach (s.incidentEdges slot) s
  rw [hremoved] at hloses
  have hmem := mem_incidentEdges hs hnode ((hloses order hs).edge_of i x hx) hend
  have hgone := edge?_removeEach hs (by rw [hremoved]) hmem i
  rw [hremoved, Store.edge?_eq, hx, Option.map_some] at hgone
  exact hgone rfl

theorem dropNode_forgotten (hs : s.Consistent order) (hnode : s.store.node? slot = some node) :
    dropNode node (s.withStore fun store =>
      { store with views := store.views.map (·.forgetNode slot) }) =
      (.ok true, s.forgetNode slot node) := by
  have hslot : (s.withStore fun store =>
      { store with views := store.views.map (·.forgetNode slot) }).nodeSlot? node = .ok (some slot) :=
    hs.nodeSlot?_eq hnode
  rw [dropNode]
  simp only [bind_apply, ask_apply, hslot]
  rfl

/-- Either nothing happens, or the edges at a node that is stored are removed, and then the node is,
unless one of the edges could not be. -/
theorem removeNode_cases (hs : s.Consistent order) (node : Node) :
    (∃ answer, removeNode node s = (answer, s)) ∨
    ∃ slot, s.store.node? slot = some node ∧
      ((∃ fault s', removeEach (s.incidentEdges slot) s = (.error fault, s') ∧
        removeNode node s = (.error fault, s')) ∨
      ∃ s' place, removeEach (s.incidentEdges slot) s = (.ok (), s') ∧
        s'.store.node? slot = some node ∧
        removeNode node s =
          (.ok true, ((s'.forgetNode slot node).bumpIf true false).tell (.nodeRemoved node place))) := by
  rw [removeNode]
  simp only [bind_apply, ask_apply]
  cases hslot : s.nodeSlot? node with
  | error fault => exact .inl ⟨_, rfl⟩
  | ok home =>
    cases home with
    | none => exact .inl ⟨_, rfl⟩
    | some slot =>
      have hnode := node?_of_nodeSlot? hslot
      refine .inr ⟨slot, hnode, ?_⟩
      obtain ⟨_, _, _, order', _, hs'⟩ := loses_removeEach (s.incidentEdges slot) s order hs
      have hnode' := node?_removeEach (s.incidentEdges slot) s slot
      simp only [bind_apply, get_apply]
      rw [← removeEach]
      generalize removeEach (s.incidentEdges slot) s = removed at *
      obtain ⟨answer, s₁⟩ := removed
      cases answer with
      | error fault => exact .inl ⟨fault, s₁, rfl, rfl⟩
      | ok done =>
        have hnode₁ : s₁.store.node? slot = some node := hnode'.trans hnode
        simp only [bind_apply, change_apply, discard_eq, pure_apply, dropNode_forgotten hs' hnode₁]
        exact .inr ⟨s₁, _, rfl, hnode₁, rfl⟩

/-- What holds when nothing happens, once the edges at the node are removed, and when then the node,
with no edge left at it, is forgotten holds after a removal. If an edge cannot be removed, the node
stays, with the edges before it gone. -/
theorem Consistent.removeNode_induction {P : Session → Prop} (hs : s.Consistent order) (hnone : P s)
    (hedges : ∀ slot, P (removeEach (s.incidentEdges slot) s).2)
    (hforget : ∀ slot s' order' place, P s' → s'.Consistent order' → s'.store.node? slot = some node →
      (∀ i x p, s'.store.fixed? i = some x → x.2.1.get p ≠ slot) →
        P (((s'.forgetNode slot node).bumpIf true false).tell (.nodeRemoved node place))) :
    P (removeNode node s).2 := by
  rcases removeNode_cases hs node with ⟨answer, h⟩ |
    ⟨slot, hnode, ⟨fault, s', hremoved, h⟩ | ⟨s', place, hremoved, hnode', h⟩⟩
  · rw [h]
    exact hnone
  · have hdone := hedges slot
    rw [hremoved] at hdone
    rw [h]
    exact hdone
  · have hdone := hedges slot
    obtain ⟨order', _, hs'⟩ := (loses_removeEach (s.incidentEdges slot) s order hs).exists_sublist
    rw [hremoved] at hdone hs'
    rw [h]
    exact hforget slot s' order' place hdone hs' hnode' (bare_of_removeEach hs hnode hremoved)

theorem loses_removeNode (node : Node) (s : Session) : Loses s (removeNode node s).2 := by
  intro order hs
  have hloses : Loses s (removeNode node s).2 :=
    hs.removeNode_induction (.refl s) (fun slot => loses_removeEach _ s)
      fun _ _ _ _ hdone _ hnode hbare => (hdone.trans (loses_forgetNode hnode hbare)).told _ _ _
  exact hloses order hs

/-! ### Several at once -/

theorem loses_removeNodes (nodes : List Node) (s : Session) : Loses s (removeNodes nodes s).2 :=
  countEach_snd (P := fun s' => Loses s s') (fun node _ h => h.trans (loses_removeNode node _)) nodes
    (.refl s)

theorem loses_removeEdges (edges : List Edge) (s : Session) : Loses s (removeEdges edges s).2 :=
  countEach_snd (P := fun s' => Loses s s') (fun edge _ h => h.trans (loses_removeEdge edge _)) edges
    (.refl s)

theorem loses_retainNodes (keep : List Node) (s : Session) : Loses s (retainNodes keep s).2 := by
  rw [retainNodes, bind_apply, get_apply]
  exact loses_removeNodes _ s

theorem loses_retainEdges (keep : List Edge) (s : Session) : Loses s (retainEdges keep s).2 := by
  rw [retainEdges, bind_apply, get_apply]
  exact loses_removeEdges _ s

/-! ### Everything at once -/

theorem foldl_unbindEdge_eq (edges : List Edge) (c : Catalog) : edges.foldl Catalog.unbindEdge c =
    { c with edgeHomes := edges.foldl Std.HashMap.erase c.edgeHomes } := by
  induction edges generalizing c with
  | nil => rfl
  | cons edge rest ih => exact ih (c.unbindEdge edge)

theorem nodeHomes_foldl_unbindEdge (edges : List Edge) (c : Catalog) :
    (edges.foldl Catalog.unbindEdge c).nodeHomes = c.nodeHomes := by
  rw [foldl_unbindEdge_eq]

theorem loses_clear (s : Session) : Loses s (clear s).2 := by
  rw [clear, change_apply]
  refine Loses.told (fun order hs => ?_) _ _ _
  have hnode : ∀ n, ({ s.store with nodes := s.store.nodes.clear, edges := s.store.edges.clear } :
      Store).node? n = none := fun n => Store.node?_of_clear (t := s.store.nodes) rfl
  refine .of_forget (f := ViewRecord.forgetAll) hs (List.nil_sublist order)
    (hs.sound.clear.of_eq rfl rfl rfl) rfl rfl (fun n => (hnode n).trans ?_)
    (fun i => (Store.fixed?_of_clear (t := s.store.edges) rfl).trans ?_) (fun n hn => hn)
      (fun i hi => hi) ?_ ?_
    (fun r _ => .forgetAll) fun r hr => .forgetAll hr
  · cases s.store.node? n <;> rfl
  · cases s.store.fixed? i <;> rfl
  · intro n node hn hnode
    rw [hnode] at hn
    cases hn
  · intro i edge hi hedge
    have hnone : s.store.fixed? i = none := by simpa using hi
    rw [Store.edge?_eq, hnone] at hedge
    cases hedge

theorem loses_clearEdges (s : Session) : Loses s (clearEdges s).2 := by
  rw [clearEdges, change_apply]
  refine Loses.told (fun order hs => ?_) _ _ _
  have hnode : ∀ n, ({ s.store with nodes := s.store.nodes.dropEdges, edges := s.store.edges.clear } :
      Store).node? n = s.store.node? n := fun n => Store.node?_of_dropEdges rfl
  refine .of_forget (f := ViewRecord.clearEdges) hs (List.nil_sublist order)
    (hs.sound.clearEdges.of_eq rfl rfl rfl) rfl rfl
    (fun n => (hnode n).trans (if_neg Bool.false_ne_true).symm)
    (fun i => (Store.fixed?_of_clear (t := s.store.edges) rfl).trans ?_)
      (fun n hn => by cases hn) (fun i hi => hi) ?_ ?_
    (fun r hr => hr.clearEdges hnode) fun r hr => .clearEdges hr
  · cases s.store.fixed? i <;> rfl
  · intro n node _ _
    exact congrArg (·[node]?) (nodeHomes_foldl_unbindEdge _ s.catalog)
  · intro i edge hi hedge
    have hnone : s.store.fixed? i = none := by simpa using hi
    rw [Store.edge?_eq, hnone] at hedge
    cases hedge

end Session

end PropertyGraph

import PropertyGraph.Proofs.Connections
import PropertyGraph.Proofs.Session.Ids
import PropertyGraph.Proofs.Session.LabelsStay
import PropertyGraph.Proofs.ViewClosure

/-!
# Which edges are stored

A call to store an edge looks at the home of the edge, at its ends, at the kind of the graph, and at
three tables: the ids in use, the labels, and the pairs of nodes that are joined. What it reads there
is what is stored, so whether the edge is accepted can be said of the stored edges alone.
-/

namespace PropertyGraph

/-- The two edges cannot be stored together, though they have different ids: they have their label in
common and run alike, or they run opposite ways between two nodes and not both are directed. -/
def Edge.Conflicts (edge other : Edge) : Prop :=
  other.label = edge.label ∧
    ((other.source = edge.source ∧ other.target = edge.target) ∨
      (other.source = edge.target ∧ other.target = edge.source ∧ edge.source ≠ edge.target ∧
        ¬ (edge.directed = true ∧ other.directed = true)))

instance (edge other : Edge) : Decidable (edge.Conflicts other) :=
  inferInstanceAs (Decidable (_ ∧ _))

theorem EdgeTable.conflict?_eq_none_iff {t : EdgeTable} {source target label : Nat} {directed : Bool} :
    t.conflict? source target label directed = none ↔ t.find? source target label = none ∧
      ∀ e, (t.find? target source label).bind t.get? = some e → source ≠ target →
        directed = true ∧ e.edge.directed = true := by
  rw [conflict?]
  cases hfind : t.find? source target label with
  | some slot => simp
  | none =>
    by_cases hloop : source = target
    · simp [hloop]
    · cases hreverse : (t.find? target source label).bind t.get? with
      | none => simp [hloop]
      | some e =>
        cases directed <;> cases hdirected : e.edge.directed <;> simp [hloop, hdirected]

namespace Session

open PropertyGraph.Action

variable {s s' : Session} {order : List Nat} {edges : List Edge} {edge other : Edge}
  {source target slot : Nat}

/-- All that is needed for an edge to be stored, other than that it is not stored already and that
there is a slot for it. -/
structure Admissible (s : Session) (edge : Edge) : Prop where
  named : edge.id.isAbsent = false
  unowned : ∀ home, s.catalog.edgeHomes[edge]? = some home → home.store = s.store.token
  ends_stored : ∀ role, s.containsNode (edge.node role) = true
  admitted : s.store.edges.kind.admits edge.directed = true
  id_free : ∀ other, s.containsEdge other = true → other.id ≠ edge.id
  not_conflicts : ∀ other, s.containsEdge other = true → ¬ edge.Conflicts other
  label_fits : s.store.labels.contains edge.label = true ∨ s.store.labels.size < maxLabels

/-! ### What speaks against an edge -/

namespace Consistent

theorem find?_iff_edge (hs : s.Consistent order) {u v : Node} {label : String} {id : Nat}
    (hu : s.store.node? source = some u) (hv : s.store.node? target = some v)
    (hid : s.store.labels.idOf? label = some id) :
    s.store.edges.find? source target id = some slot ↔ ∃ e, s.store.edges.get? slot = some e ∧
      e.edge.source = u ∧ e.edge.target = v ∧ e.edge.label = label := by
  rw [hs.find?_iff]
  refine exists_congr fun e => and_congr_right fun he => ?_
  have hplain := Store.Sound.plain?_eq_some he
  have hsource := hs.endsAt_iff (p := .outgoing) hu hplain
  have htarget := hs.endsAt_iff (p := .incoming) hv hplain
  rw [EdgeSlot.endsAt, beq_iff_eq] at hsource htarget
  refine and_congr hsource (and_congr htarget ?_)
  have hlabel := hs.idOf?_label hplain
  constructor
  · intro heq
    have hget := hs.sound.label_of _ _ hplain
    rw [show e.unlinked.label = id from heq,
      (hs.sound.labels_sound.ids_iff _ _).mp hid, Option.some.injEq] at hget
    exact hget.symm
  · intro heq
    rw [show e.unlinked.edge.label = label from heq, hid, Option.some.injEq] at hlabel
    exact hlabel.symm

theorem conflict?_eq_none_iff (hs : s.Consistent order)
    (hsource : s.store.node? source = some edge.source)
    (htarget : s.store.node? target = some edge.target) :
    (s.store.labels.idOf? edge.label).bind
      (s.store.edges.conflict? source target · edge.directed) = none ↔
      ∀ other, s.containsEdge other = true → ¬ edge.Conflicts other := by
  have hstored : ∀ other, s.containsEdge other = true ↔
      ∃ i e, s.store.edges.get? i = some e ∧ e.edge = other := by
    intro other
    rw [hs.containsEdge_iff]
    refine exists_congr fun i => ?_
    rw [Store.edge?, Option.map_eq_some_iff]
  cases hid : s.store.labels.idOf? edge.label with
  | none =>
    -- no edge has a label that is not registered
    refine iff_of_true rfl fun other hother hconflicts => ?_
    obtain ⟨i, e, he, rfl⟩ := (hstored other).mp hother
    have hlabel := hs.idOf?_label (Store.Sound.plain?_eq_some he)
    rw [show e.unlinked.edge.label = edge.label from hconflicts.1, hid] at hlabel
    cases hlabel
  | some id =>
    have hnodes : source = target ↔ edge.source = edge.target := by
      constructor
      · rintro rfl
        exact Option.some.inj (hsource.symm.trans htarget)
      · intro heq
        exact hs.node_unique (heq ▸ hsource) htarget
    rw [Option.bind_some, EdgeTable.conflict?_eq_none_iff]
    constructor
    · rintro ⟨hparallel, hreverse⟩ other hother ⟨hlabel, hruns⟩
      obtain ⟨i, e, he, rfl⟩ := (hstored other).mp hother
      rcases hruns with ⟨hsame, hsame'⟩ | ⟨hback, hback', hne, hnot⟩
      · have hfound := (hs.find?_iff_edge hsource htarget hid).mpr ⟨e, he, hsame, hsame', hlabel⟩
        rw [hparallel] at hfound
        cases hfound
      · have hfound := (hs.find?_iff_edge htarget hsource hid).mpr ⟨e, he, hback, hback', hlabel⟩
        exact hnot (hreverse e (by rw [hfound, Option.bind_some, he]) fun h => hne (hnodes.mp h))
    · intro hnone
      constructor
      · refine Option.eq_none_iff_forall_ne_some.mpr fun i hfound => ?_
        obtain ⟨e, he, hsame, hsame', hlabel⟩ := (hs.find?_iff_edge hsource htarget hid).mp hfound
        exact hnone e.edge ((hstored _).mpr ⟨i, e, he, rfl⟩) ⟨hlabel, .inl ⟨hsame, hsame'⟩⟩
      · intro e hreverse hne
        obtain ⟨i, hfound, he⟩ := Option.bind_eq_some_iff.mp hreverse
        obtain ⟨f, hf, hback, hback', hlabel⟩ := (hs.find?_iff_edge htarget hsource hid).mp hfound
        obtain rfl := Option.some.inj (hf.symm.trans he)
        by_contra hnot
        exact hnone f.edge ((hstored _).mpr ⟨i, f, hf, rfl⟩)
          ⟨hlabel, .inr ⟨hback, hback', fun h => hne (hnodes.mpr h), hnot⟩⟩

theorem refusal?_eq_none_iff (hs : s.Consistent order) (hlisted : s.edgeHandles.Listed Edge.id)
    (hsource : s.store.node? source = some edge.source)
    (htarget : s.store.node? target = some edge.target) :
    s.refusal? edge source target = none ↔ s.store.edges.kind.admits edge.directed = true ∧
      (∀ other, s.containsEdge other = true → other.id ≠ edge.id) ∧
      ∀ other, s.containsEdge other = true → ¬ edge.Conflicts other := by
  rw [← hs.conflict?_eq_none_iff hsource htarget, refusal?]
  have hfree : (∀ other, s.containsEdge other = true → other.id ≠ edge.id) ↔
      s.store.edges.ids.contains edge.id ≠ true := by
    rw [Ne, hs.contains_id_iff hlisted, not_exists]
    exact forall_congr' fun other => not_and.symm
  rw [hfree]
  by_cases hadmits : s.store.edges.kind.admits edge.directed = true
  · by_cases htaken : s.store.edges.ids.contains edge.id = true <;> simp [hadmits, htaken]
  · simp [hadmits]

end Consistent

theorem exists_endSlot_iff (role : EndRole) :
    (∃ slot, s.endSlot edge role = .ok slot) ↔ s.containsNode (edge.node role) = true := by
  rw [containsNode_iff_nodeSlot?]
  constructor
  · rintro ⟨slot, hslot⟩
    rw [endSlot] at hslot
    rcases hnode : s.nodeSlot? (edge.node role) with fault | ⟨_ | found⟩
    · rw [hnode] at hslot
      cases hslot
    · rw [hnode] at hslot
      cases hslot
    · exact ⟨found, rfl⟩
  · rintro ⟨slot, hslot⟩
    refine ⟨slot, ?_⟩
    rw [endSlot, hslot]
    rfl

/-- An edge that is not stored here is at home nowhere else exactly if the question for its slot is
not refused. -/
theorem edgeSlot?_eq_none_iff (hnot : s.containsEdge edge = false) : s.edgeSlot? edge = .ok none ↔
    ∀ home, s.catalog.edgeHomes[edge]? = some home → home.store = s.store.token := by
  rw [containsEdge] at hnot
  rw [edgeSlot?] at hnot ⊢
  cases hhome : s.catalog.edgeHomes[edge]? with
  | none => simp
  | some home =>
    rw [hhome] at hnot
    by_cases hstore : home.store = s.store.token
    · simp_all
    · simp [hstore]

/-! ### Where there is room -/

theorem placeEdge_done_iff (hs : s.Consistent order) :
    (placeEdge edge source target s).1 = .ok true ↔
      (s.store.labels.contains edge.label = true ∨ s.store.labels.size < maxLabels) ∧
        s.store.edges.arena.HasRoom := by
  rw [← hs.sound.labels_sound.exists_add_iff, placeEdge]
  simp only [bind_apply, onStore_apply, change_apply, pure_apply, EdgeTable.add]
  rcases s.store.labels.add edge.label with ⟨fault | id, labels⟩
  · constructor
    · intro hdone
      cases hdone
    · rintro ⟨⟨_, hadd⟩, _⟩
      cases hadd
  · simp only
    rw [← hs.sound.edges_valid.exists_alloc_iff { edge, ends := ⟨source, target⟩, label := id }]
    rcases s.store.edges.arena.alloc { edge, ends := ⟨source, target⟩, label := id } with
      ⟨fault | slot, arena⟩
    · constructor
      · intro hdone
        cases hdone
      · rintro ⟨_, _, halloc⟩
        cases halloc
    · constructor
      · intro _
        exact ⟨⟨id, rfl⟩, slot, rfl⟩
      · intro _
        rfl

/-! ### The call -/

/-- What a call to store an edge comes to. -/
structure AddsExactly (s : Session) (edge : Edge) : Prop where
  again : s.containsEdge edge = true → addEdge edge s = (.ok false, s)
  done_iff : s.containsEdge edge = false →
    ((addEdge edge s).1 = .ok true ↔ s.Admissible edge ∧ s.store.edges.arena.HasRoom)
  containsEdge_iff : (addEdge edge s).1 = .ok true → ∀ other,
    (addEdge edge s).2.containsEdge other = true ↔ other = edge ∨ s.containsEdge other = true
  edgeSlot?_eq : (addEdge edge s).1 = .ok true → ∀ other slot,
    s.edgeSlot? other = .ok (some slot) → (addEdge edge s).2.edgeSlot? other = .ok (some slot)

theorem addEdge_of_there (hid : edge.id.isAbsent = false) (hthere : s.containsEdge edge = true) :
    addEdge edge s = (.ok false, s) := by
  obtain ⟨slot, hslot⟩ := containsEdge_iff_edgeSlot?.mp hthere
  rw [addEdge]
  simp only [hid, Bool.false_eq_true, if_false, bind_apply, ask_apply, hslot]
  rfl

theorem Recorded.hasRoom (h : s.Recorded order edges) (hfew : edges.length < Arena.maxLength) :
    s.store.edges.arena.HasRoom := by
  have hsize : s.store.edges.arena.size = edges.length := by
    have hlength := congrArg List.length h.edges_eq
    rw [List.length_map, List.length_map] at hlength
    rw [h.consistent.sound.edges_valid.size_eq, ← hlength]
    exact h.consistent.perm_slots.length_eq.symm
  by_cases hgarbage : s.store.edges.arena.garbage = []
  · have hlength := h.consistent.sound.edges_valid.size_eq_length hgarbage
    exact .inr (by omega)
  · exact .inl hgarbage

theorem Consistent.addEdge_done_iff (hs : s.Consistent order)
    (hlisted : s.edgeHandles.Listed Edge.id) (hnot : s.containsEdge edge = false) :
    (addEdge edge s).1 = .ok true ↔ s.Admissible edge ∧ s.store.edges.arena.HasRoom := by
  constructor
  · intro hdone
    have hid : edge.id.isAbsent = false := by
      by_contra habsent
      rw [addEdge_of_absent (Bool.not_eq_false _ ▸ habsent)] at hdone
      cases hdone
    rcases addEdge_cases edge s with ⟨fault, hadd⟩ | ⟨hadd, _⟩ |
      ⟨source, target, hhome, hsource, htarget, hrefusal, hadd⟩
    · rw [hadd] at hdone
      cases hdone
    · rw [hadd] at hdone
      cases hdone
    · rw [hadd, placeEdge_done_iff hs] at hdone
      obtain ⟨hadmits, hfree, hconflicts⟩ := (hs.refusal?_eq_none_iff hlisted
        (node?_of_endSlot hsource) (node?_of_endSlot htarget)).mp hrefusal
      refine ⟨⟨hid, (edgeSlot?_eq_none_iff hnot).mp hhome, fun role => ?_, hadmits, hfree, hconflicts,
        hdone.1⟩, hdone.2⟩
      cases role with
      | source => exact (exists_endSlot_iff _).mp ⟨source, hsource⟩
      | target => exact (exists_endSlot_iff _).mp ⟨target, htarget⟩
  · rintro ⟨h, hroom⟩
    obtain ⟨source, hsource⟩ := (exists_endSlot_iff .source).mpr (h.ends_stored .source)
    obtain ⟨target, htarget⟩ := (exists_endSlot_iff .target).mpr (h.ends_stored .target)
    have hrefusal := (hs.refusal?_eq_none_iff hlisted (node?_of_endSlot hsource)
      (node?_of_endSlot htarget)).mpr ⟨h.admitted, h.id_free, h.not_conflicts⟩
    rw [addEdge_of_fresh h.named ((edgeSlot?_eq_none_iff hnot).mpr h.unowned) hsource htarget hrefusal,
      placeEdge_done_iff hs]
    exact ⟨h.label_fits, hroom⟩

/-- Whatever happened to the store, the answer to a call to store an edge depends on the stored edges
as it says, and an edge that is stored joins them and moves none. -/
theorem History.adds_exactly (h : History s edges) (edge : Edge) : s.AddsExactly edge := by
  obtain ⟨order, hrecorded⟩ := h.recorded
  have hs := hrecorded.consistent
  have hgains : (addEdge edge s).1 = .ok true → Gains s (addEdge edge s).2 [edge] := by
    intro hdone
    rcases gains_addEdge hs edge with ⟨_, hthere⟩ | ⟨_, _, hgains⟩
    · have hthere := hthere true hdone
      rw [addEdge_of_there (h.id_not_absent hthere) hthere] at hdone
      cases hdone
    · exact hgains
  refine ⟨fun hthere => addEdge_of_there (h.id_not_absent hthere) hthere,
    hs.addEdge_done_iff h.listed, fun hdone other => ?_, fun hdone other slot hslot => ?_⟩
  · rw [(hgains hdone).containsEdge_iff hs, List.mem_singleton]
  · obtain ⟨_, _, hkept, fresh, hs', _⟩ := hgains hdone order hs
    have hedge := edge?_of_edgeSlot? hslot
    rw [Store.edge?_eq, Option.map_eq_some_iff] at hedge
    obtain ⟨x, hx, rfl⟩ := hedge
    exact hs'.edgeSlot?_eq (by rw [Store.edge?_eq, hkept slot x hx]; rfl)

/-! ### Edges that join one after another -/

def HomesHere (s : Session) : Prop :=
  ∀ (edge : Edge) home, s.catalog.edgeHomes[edge]? = some home → home.store = s.store.token

/-- What a call that stores an edge does beside the nodes and the edges. -/
structure Joined (edge : Edge) (s s' : Session) : Prop where
  token_eq : s'.store.token = s.store.token
  kind_eq : s'.store.edges.kind = s.store.edges.kind
  labels_eq : s'.store.labels = (s.store.labels.add edge.label).2
  views_eq : s'.store.views = s.store.views
  destroyedViews_eq : s'.catalog.destroyedViews = s.catalog.destroyedViews
  exists_home : ∃ slot, s'.catalog.edgeHomes = s.catalog.edgeHomes.insert edge ⟨s.store.token, slot⟩

theorem Consistent.joined_placeEdge (hs : s.Consistent order)
    (hdone : (placeEdge edge source target s).1 = .ok true) :
    Joined edge s (placeEdge edge source target s).2 := by
  have hlabels := labels_placeEdge edge source target s
  obtain ⟨labels, _, _, ⟨fault, hplace⟩ | ⟨slot, label, arena, _, t, _, _, _, _, _, rfl, hplace⟩⟩ :=
    placeEdge_run hs edge source target
  · rw [hplace] at hdone
    cases hdone
  · rw [hplace] at hlabels ⊢
    constructor
    case labels_eq => exact hlabels
    case token_eq => exact Store.token_link
    case kind_eq => exact Store.ids_link.2.2
    case views_eq => exact Store.views_link
    case destroyedViews_eq =>
      rw [tell, withCatalog, foldl_tell_eq]
      rfl
    case exists_home =>
      refine ⟨slot, (homes_foldl_tell _ _ _).2.trans ?_⟩
      change s.catalog.edgeHomes.insert edge ⟨_, slot⟩ = _
      rw [Store.token_link]

theorem Consistent.joined_addEdge (hs : s.Consistent order) (hnot : s.containsEdge edge = false)
    (hdone : (addEdge edge s).1 = .ok true) : Joined edge s (addEdge edge s).2 := by
  rcases addEdge_cases edge s with ⟨fault, hadd⟩ | ⟨hadd, hthere⟩ | ⟨source, target, _, _, _, _, hadd⟩
  · rw [hadd] at hdone
    cases hdone
  · rw [hnot] at hthere
    cases hthere
  · rw [hadd] at hdone ⊢
    exact hs.joined_placeEdge hdone

theorem Joined.homesHere (h : Joined edge s s') (hhomes : s.HomesHere) : s'.HomesHere := by
  obtain ⟨slot, heq⟩ := h.exists_home
  intro other home hhome
  rw [heq, Std.HashMap.getElem?_insert] at hhome
  rw [h.token_eq]
  split at hhome
  · cases hhome
    rfl
  · exact hhomes other home hhome

theorem Joined.viewRecord_eq (h : Joined edge s s') (view : View) :
    s'.viewRecord view = s.viewRecord view := by
  rw [viewRecord, viewRecord, viewSlot, viewSlot, Catalog.isDestroyed, Catalog.isDestroyed,
    h.token_eq, h.destroyedViews_eq, h.views_eq]

theorem History.admissible (h : History s edges) (hnamed : edge.id.isAbsent = false)
    (hhomes : s.HomesHere) (hends : ∀ role, s.containsNode (edge.node role) = true)
    (hadmits : s.store.edges.kind.admits edge.directed = true)
    (hfree : ∀ other ∈ edges, other.id ≠ edge.id ∧ ¬ edge.Conflicts other)
    (hfits : s.store.labels.contains edge.label = true ∨ s.store.labels.size < maxLabels) :
    s.Admissible edge := by
  obtain ⟨order, hrecorded⟩ := h.recorded
  constructor
  case named => exact hnamed
  case unowned => exact hhomes edge
  case ends_stored => exact hends
  case admitted => exact hadmits
  case id_free => exact fun other hother => (hfree other ((hrecorded.mem_iff other).mpr hother)).1
  case not_conflicts => exact fun other hother => (hfree other ((hrecorded.mem_iff other).mpr hother)).2
  case label_fits => exact hfits

theorem History.edge_joins (h : History s edges) (hadmissible : s.Admissible edge) (hnew : edge ∉ edges)
    (hfew : edges.length < Arena.maxLength) :
    History ((Command.addEdge edge).perform s) (edge :: edges) ∧
      Joined edge s ((Command.addEdge edge).perform s) := by
  obtain ⟨order, hrecorded⟩ := h.recorded
  have hnot : s.containsEdge edge = false := by
    rw [← Bool.not_eq_true, ← hrecorded.mem_iff edge]
    exact hnew
  have hdone := (hrecorded.consistent.addEdge_done_iff h.listed hnot).mpr
    ⟨hadmissible, hrecorded.hasRoom hfew⟩
  refine ⟨?_, hrecorded.consistent.joined_addEdge hnot hdone⟩
  have hafter := h.performed s edges (.addEdge edge)
  rwa [hrecorded.ledger_addEdge hdone] at hafter

/-! ### A pair and a loop

Two nodes with edges both ways between them and a loop at the first one. There is a view, too, which
was made before the edges came. -/

def edgeBA : Edge :=
  { serial := 2, id := .int 3, source := nodeB, target := nodeA, label := "path", directed := true }

def edgeAB : Edge :=
  { serial := 3, id := .int 4, source := nodeA, target := nodeB, label := "path", directed := true }

def loopA : Edge :=
  { serial := 4, id := .int 5, source := nodeA, target := nodeA, label := "self", directed := true }

def withBA : Session := (Command.addEdge edgeBA).perform withNodes

def paired : Session := (Command.addEdge edgeAB).perform withBA

def pairedLooped : Session := (Command.addEdge loopA).perform paired

/-- What stays as it is while edges join the two nodes. -/
structure OnTwoNodes (s : Session) : Prop where
  homesHere : s.HomesHere
  kind_eq : s.store.edges.kind = .mixed
  nodeA_there : s.store.node? 0 = some nodeA
  nodeB_there : s.store.node? 1 = some nodeB
  viewRecord_eq : s.viewRecord exampleView = .ok { view := exampleView, groups := some {} }

theorem onTwoNodes_withNodes : OnTwoNodes withNodes where
  homesHere := by
    intro edge home hhome
    rw [show withNodes.catalog.edgeHomes[edge]? = none from Std.HashMap.getElem?_empty] at hhome
    cases hhome
  kind_eq := rfl
  nodeA_there := rfl
  nodeB_there := rfl
  viewRecord_eq := viewRecord_withView _

theorem OnTwoNodes.containsNode (h : OnTwoNodes s) (hhistory : History s edges) :
    s.containsNode nodeA = true ∧ s.containsNode nodeB = true := by
  obtain ⟨order, hs, _⟩ := hhistory.recorded
  exact ⟨hs.containsNode_iff.mpr ⟨0, h.nodeA_there⟩, hs.containsNode_iff.mpr ⟨1, h.nodeB_there⟩⟩

theorem OnTwoNodes.addEdge (h : OnTwoNodes s) (hhistory : History s edges)
    (hnamed : edge.id.isAbsent = false)
    (hsource : edge.source ∈ [nodeA, nodeB]) (htarget : edge.target ∈ [nodeA, nodeB])
    (hfree : ∀ other ∈ edges, other.id ≠ edge.id ∧ ¬ edge.Conflicts other)
    (hfits : s.store.labels.size < maxLabels) (hfew : edges.length < Arena.maxLength) :
    History ((Command.addEdge edge).perform s) (edge :: edges) ∧
      Joined edge s ((Command.addEdge edge).perform s) ∧
      OnTwoNodes ((Command.addEdge edge).perform s) := by
  obtain ⟨order, hs, _⟩ := hhistory.recorded
  have hstored : ∀ node ∈ [nodeA, nodeB], s.containsNode node = true := by
    obtain ⟨hA, hB⟩ := h.containsNode hhistory
    simp [hA, hB]
  have hends : ∀ role, s.containsNode (edge.node role) = true := by
    intro role
    cases role with
    | source => exact hstored _ hsource
    | target => exact hstored _ htarget
  have hadmits : s.store.edges.kind.admits edge.directed = true := by
    rw [h.kind_eq]
    rfl
  have hadmissible := hhistory.admissible hnamed h.homesHere hends hadmits hfree (.inr hfits)
  obtain ⟨hafter, hjoined⟩ := hhistory.edge_joins hadmissible (fun hmem => (hfree edge hmem).1 rfl) hfew
  refine ⟨hafter, hjoined, ?_⟩
  constructor
  case homesHere => exact hjoined.homesHere h.homesHere
  case kind_eq => exact hjoined.kind_eq.trans h.kind_eq
  case nodeA_there => exact hs.node?_addEdge h.nodeA_there edge
  case nodeB_there => exact hs.node?_addEdge h.nodeB_there edge
  case viewRecord_eq => exact (hjoined.viewRecord_eq exampleView).trans h.viewRecord_eq

theorem withBA_joined : History withBA [edgeBA] ∧ Joined edgeBA withNodes withBA ∧ OnTwoNodes withBA :=
  onTwoNodes_withNodes.addEdge history_withNodes rfl (by decide) (by decide) (by decide) (by decide)
    (by decide)

theorem labels_withBA : withBA.store.labels = (lone.store.labels.add "path").2 :=
  withBA_joined.2.1.labels_eq

theorem paired_joined : History paired [edgeAB, edgeBA] ∧ Joined edgeAB withBA paired ∧
    OnTwoNodes paired := by
  refine withBA_joined.2.2.addEdge withBA_joined.1 rfl (by decide) (by decide) (by decide) ?_ (by decide)
  rw [labels_withBA, labels_add_lone]
  decide

theorem labels_paired : paired.store.labels = (lone.store.labels.add "path").2 := by
  have hid : withBA.store.labels.idOf? "path" = some 0 := by
    rw [labels_withBA, labels_add_lone]
    exact Std.HashMap.getElem?_insert_self
  rw [paired_joined.2.1.labels_eq, ← labels_withBA]
  exact congrArg Prod.snd (LabelRegistry.add_of_idOf? hid)

theorem pairedLooped_joined : History pairedLooped [loopA, edgeAB, edgeBA] ∧
    Joined loopA paired pairedLooped ∧ OnTwoNodes pairedLooped := by
  refine paired_joined.2.2.addEdge paired_joined.1 rfl (by decide) (by decide) (by decide) ?_ (by decide)
  rw [labels_paired, labels_add_lone]
  decide

/-! ### A sample store

The view is filled. The second node is put in a group of the first, which is collapsed. -/

def filledRecord : ViewRecord :=
  ({ view := exampleView, groups := some {} } : ViewRecord).fill pairedLooped.store.nodes.slots
    pairedLooped.store.edges.slots

def regroupedRecord : ViewRecord :=
  ({ filledRecord with groups := some groupAB } : ViewRecord).bumpIf true true

def sampleRecord : ViewRecord :=
  ({ regroupedRecord with groups := some collapsedAB } : ViewRecord).bumpIf true true

def filledStore : Session := (Command.fillView exampleView).perform pairedLooped

def regroupedStore : Session := (Command.group exampleView nodeA [nodeB]).perform filledStore

/-- Two nodes with a pair and a loop, and a view that hides the second node. -/
def sampleStore : Session := (Command.collapse exampleView nodeA).perform regroupedStore

theorem history_filledStore : History filledStore [loopA, edgeAB, edgeBA] :=
  pairedLooped_joined.1.edited (.fillView exampleView) (edits_fillView exampleView pairedLooped)

theorem history_regroupedStore : History regroupedStore [loopA, edgeAB, edgeBA] :=
  history_filledStore.edited (.group exampleView nodeA [nodeB])
    (edits_group exampleView nodeA [nodeB] filledStore)

theorem history_sampleStore : History sampleStore [loopA, edgeAB, edgeBA] :=
  history_regroupedStore.edited (.collapse exampleView nodeA)
    (edits_collapse exampleView nodeA regroupedStore)

theorem filledStore_eq : filledStore = pairedLooped.setRecord exampleView filledRecord :=
  congrArg Prod.snd (fillView_of_live pairedLooped_joined.2.2.viewRecord_eq)

theorem viewRecord_filledStore : filledStore.viewRecord exampleView = .ok filledRecord := by
  rw [filledStore_eq]
  exact viewRecord_setRecord pairedLooped_joined.2.2.viewRecord_eq filledRecord

theorem nodeSlot?_filledStore :
    filledStore.nodeSlot? nodeA = .ok (some 0) ∧ filledStore.nodeSlot? nodeB = .ok (some 1) := by
  obtain ⟨order, hs, _⟩ := pairedLooped_joined.1.recorded
  rw [filledStore_eq]
  exact ⟨hs.nodeSlot?_eq pairedLooped_joined.2.2.nodeA_there,
    hs.nodeSlot?_eq pairedLooped_joined.2.2.nodeB_there⟩

theorem regroupedStore_eq : regroupedStore = filledStore.setRecord exampleView regroupedRecord := by
  have hA : filledStore.resolveNode nodeA = .ok 0 := by
    rw [resolveNode, nodeSlot?_filledStore.1]
    rfl
  have hB : filledStore.resolveNodes [nodeB] = .ok [1] := by
    rw [resolveNodes, List.mapM_cons, resolveNode, nodeSlot?_filledStore.2]
    rfl
  exact congrArg Prod.snd (group_of_live hA hB viewRecord_filledStore rfl group_groupAB)

theorem viewRecord_regroupedStore : regroupedStore.viewRecord exampleView = .ok regroupedRecord := by
  rw [regroupedStore_eq]
  exact viewRecord_setRecord viewRecord_filledStore regroupedRecord

theorem sampleStore_eq : sampleStore = regroupedStore.setRecord exampleView sampleRecord := by
  have hA : regroupedStore.resolveNode nodeA = .ok 0 := by
    rw [regroupedStore_eq, resolveNode]
    change (filledStore.nodeSlot? nodeA).bind _ = _
    rw [nodeSlot?_filledStore.1]
    rfl
  exact congrArg Prod.snd (editGroupAt_of_live hA viewRecord_regroupedStore rfl collapse_groupAB)

theorem viewRecord_sampleStore : sampleStore.viewRecord exampleView = .ok sampleRecord := by
  rw [sampleStore_eq]
  exact viewRecord_setRecord viewRecord_regroupedStore sampleRecord

theorem node?_sampleStore :
    sampleStore.store.node? 0 = some nodeA ∧ sampleStore.store.node? 1 = some nodeB := by
  rw [sampleStore_eq, regroupedStore_eq, filledStore_eq]
  exact ⟨pairedLooped_joined.2.2.nodeA_there, pairedLooped_joined.2.2.nodeB_there⟩

theorem containsNode_sampleStore : sampleStore.containsNode nodeA = true := by
  obtain ⟨order, hs, _⟩ := history_sampleStore.recorded
  exact hs.containsNode_iff.mpr ⟨0, node?_sampleStore.1⟩

theorem containsEdge_looped (edge : Edge) : looped.containsEdge edge = true ↔ edge = selfEdge := by
  obtain ⟨order, hrecorded⟩ := history_looped.recorded
  rw [← hrecorded.mem_iff edge, List.mem_singleton]

theorem adds_exactly_looped :
    (History lone [] ∧ (addEdge selfEdge lone).1 = .ok true ∧ lone.Admissible selfEdge ∧
      lone.store.edges.arena.HasRoom) ∧
    History looped [selfEdge] ∧ looped.containsEdge selfEdge = true ∧
      addEdge selfEdge looped = (.ok false, looped) := by
  obtain ⟨order, hrecorded⟩ := history_lone.recorded
  have hnot : lone.containsEdge selfEdge = false := by
    rw [← Bool.not_eq_true, ← hrecorded.mem_iff selfEdge]
    exact List.not_mem_nil
  have hthere := (containsEdge_looped selfEdge).mpr rfl
  have hdone := addEdge_selfEdge_done
  exact ⟨⟨history_lone, hdone, ((history_lone.adds_exactly selfEdge).done_iff hnot).mp hdone⟩,
    history_looped, hthere, (history_looped.adds_exactly selfEdge).again hthere⟩

end Session

end PropertyGraph

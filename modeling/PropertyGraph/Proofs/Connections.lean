import PropertyGraph.Proofs.Counters
import PropertyGraph.Proofs.Session.Homes

/-!
# Which edge connects two nodes

An edge connects its source to its target, and if it is undirected its target to its source as well.
The index of the pairs has every edge once, the way it runs. A lookup asks the index both ways where
the graph may have undirected edges, and that is enough: an undirected edge never lies beside another
edge with its label between the same nodes, so what is found one way is all that there is.
-/

namespace PropertyGraph

def Edge.Connects (edge : Edge) (u v : Node) : Prop :=
  (edge.source = u ∧ edge.target = v) ∨ (edge.directed = false ∧ edge.source = v ∧ edge.target = u)

def EdgeSlot.Connects (e : EdgeSlot) (i j : Nat) : Prop :=
  (e.source = i ∧ e.target = j) ∨ (e.edge.directed = false ∧ e.source = j ∧ e.target = i)

namespace Session

variable {s : Session} {order : List Nat} {edges : List Edge} {u v : Node} {label : String}
  {edge : Edge} {i j id slot : Nat} {e : EdgeSlot}

def ConnectedBy (s : Session) (u v : Node) (label : String) (edge : Edge) : Prop :=
  s.containsEdge edge = true ∧ edge.label = label ∧ edge.Connects u v

structure LookupExact (s : Session) : Prop where
  unique : ∀ u v label a b, s.ConnectedBy u v label a → s.ConnectedBy u v label b → a = b
  getEdge : ∀ u v label, s.containsNode u = true → s.containsNode v = true →
    ∃ found, s.getEdge u v label = .ok found ∧ ∀ edge, found = some edge ↔ s.ConnectedBy u v label edge
  /-- An undirected edge is found from both ends. -/
  getEdge_comm : ∀ u v label edge, s.containsNode u = true → s.containsNode v = true →
    edge.directed = false → s.getEdge u v label = .ok (some edge) →
      s.getEdge v u label = .ok (some edge)
  /-- A directed edge is found from its source only. -/
  ends_of_directed : ∀ u v label edge, s.containsNode u = true → s.containsNode v = true →
    edge.directed = true → s.getEdge u v label = .ok (some edge) →
      edge.source = u ∧ edge.target = v
  pairs_iff : ∀ source target label slot, s.store.edges.pairs[(source, target, label)]? = some slot ↔
    ∃ e, s.store.edges.get? slot = some e ∧ e.source = source ∧ e.target = target ∧ e.label = label
  getEdgeOfAnyLabel : ∀ u v, s.containsNode u = true → s.containsNode v = true →
    (∃ label id edge, s.store.labels.idOf? label = some id ∧
      s.getEdge u v label = .ok (some edge) ∧
      (∀ label' id', s.store.labels.idOf? label' = some id' → id' < id →
        s.getEdge u v label' = .ok none) ∧
      s.getEdgeOfAnyLabel u v = .ok (some edge)) ∨
    ((∀ label, s.getEdge u v label = .ok none) ∧ s.getEdgeOfAnyLabel u v = .ok none)

namespace Consistent

/-! ### The index -/

theorem find?_iff (hs : s.Consistent order) : s.store.edges.find? i j id = some slot ↔
    ∃ e, s.store.edges.get? slot = some e ∧ e.source = i ∧ e.target = j ∧ e.label = id := by
  rw [hs.sound.indexed.find?_iff]
  constructor
  · rintro ⟨_, x, hx, hsource, htarget, hlabel⟩
    obtain ⟨e, he, rfl⟩ := Store.Sound.exists_get?_of_plain? hx
    exact ⟨e, he, hsource, htarget, hlabel⟩
  · rintro ⟨e, he, hsource, htarget, hlabel⟩
    have hx := Store.Sound.plain?_eq_some he
    exact ⟨hs.mem_of_plain? hx, e.unlinked, hx, hsource, htarget, hlabel⟩

theorem find?_of_undirected (hs : s.Consistent order) (he : s.store.edges.get? slot = some e)
    (hundirected : e.edge.directed = false) (hne : e.source ≠ e.target) :
    s.store.edges.find? e.target e.source e.label = none := by
  rw [Option.eq_none_iff_forall_ne_some]
  intro other hother
  obtain ⟨f, hf, hsource, htarget, hlabel⟩ := hs.find?_iff.mp hother
  have hi := Store.Sound.plain?_eq_some he
  have hj := Store.Sound.plain?_eq_some hf
  have hdirected := hs.sound.paired.directed slot (hs.mem_of_plain? hi) other (hs.mem_of_plain? hj)
    e.unlinked f.unlinked hi hj ⟨hsource, htarget, hlabel, hne⟩
  rw [show e.unlinked.edge = e.edge from rfl, hundirected] at hdirected
  cases hdirected

theorem admits_of_get? (hadmitted : s.Admitted) (he : s.store.edges.get? slot = some e) :
    s.store.edges.kind.admits e.edge.directed = true :=
  hadmitted slot e.edge (Store.edge?_eq_some he)

theorem connects_of_connecting? (hs : s.Consistent order) (hadmitted : s.Admitted)
    (h : s.store.edges.connecting? i j id = some slot) :
    ∃ e, s.store.edges.get? slot = some e ∧ e.label = id ∧ e.Connects i j := by
  rw [EdgeTable.connecting?] at h
  cases hfind : s.store.edges.find? i j id with
  | some first =>
    rw [hfind] at h
    cases h
    obtain ⟨e, he, hsource, htarget, hlabel⟩ := hs.find?_iff.mp hfind
    exact ⟨e, he, hlabel, .inl ⟨hsource, htarget⟩⟩
  | none =>
    rw [hfind] at h
    cases hkind : s.store.edges.kind with
    | directed =>
      rw [hkind] at h
      cases h
    | undirected =>
      rw [hkind] at h
      obtain ⟨e, he, hsource, htarget, hlabel⟩ := hs.find?_iff.mp h
      have hadmits := admits_of_get? hadmitted he
      rw [hkind, Kind.admits, Bool.not_eq_true'] at hadmits
      exact ⟨e, he, hlabel, .inr ⟨hadmits, hsource, htarget⟩⟩
    | mixed =>
      rw [hkind] at h
      obtain ⟨reverse, hreverse, h⟩ := Option.bind_eq_some_iff.mp h
      obtain ⟨e, he, h⟩ := Option.bind_eq_some_iff.mp h
      split at h
      · cases h
      · next hdirected =>
        cases h
        obtain ⟨f, hf, hsource, htarget, hlabel⟩ := hs.find?_iff.mp hreverse
        rw [he, Option.some.injEq] at hf
        subst hf
        exact ⟨e, he, hlabel, .inr ⟨Bool.eq_false_iff.mpr hdirected, hsource, htarget⟩⟩

theorem connecting?_of_connects (hs : s.Consistent order) (hadmitted : s.Admitted)
    (he : s.store.edges.get? slot = some e) (hconnects : e.Connects i j) :
    s.store.edges.connecting? i j e.label = some slot := by
  have hfound := hs.find?_iff.mpr ⟨e, he, rfl, rfl, rfl⟩
  rw [EdgeTable.connecting?]
  rcases hconnects with ⟨rfl, rfl⟩ | ⟨hundirected, rfl, rfl⟩
  · rw [hfound]
  · -- the index has the edge the other way; a loop it has both ways
    by_cases hloop : e.source = e.target
    · rw [hloop] at hfound ⊢
      rw [hfound]
    · rw [hs.find?_of_undirected he hundirected hloop]
      cases hkind : s.store.edges.kind with
      | directed =>
        have hadmits := admits_of_get? hadmitted he
        rw [hkind, Kind.admits, hundirected] at hadmits
        cases hadmits
      | undirected => exact hfound
      | mixed =>
        refine Option.bind_eq_some_iff.mpr ⟨slot, hfound, Option.bind_eq_some_iff.mpr ⟨e, he, ?_⟩⟩
        rw [hundirected, if_neg Bool.false_ne_true]

theorem connecting?_iff (hs : s.Consistent order) (hadmitted : s.Admitted) :
    s.store.edges.connecting? i j id = some slot ↔
      ∃ e, s.store.edges.get? slot = some e ∧ e.label = id ∧ e.Connects i j := by
  constructor
  · exact hs.connects_of_connecting? hadmitted
  · rintro ⟨e, he, rfl, hconnects⟩
    exact hs.connecting?_of_connects hadmitted he hconnects

/-! ### Lookups -/

theorem connects_iff (hs : s.Consistent order) (hu : s.store.node? i = some u)
    (hv : s.store.node? j = some v) (he : s.store.edges.get? slot = some e) :
    e.Connects i j ↔ e.edge.Connects u v := by
  have hend : ∀ (p : Phase) n node, s.store.node? n = some node →
      (e.ends.get p = n ↔ e.edge.node p.role = node) := by
    intro p n node hn
    have hends := hs.endsAt_iff (p := p) hn (Store.Sound.plain?_eq_some he)
    rwa [EdgeSlot.endsAt, beq_iff_eq] at hends
  refine or_congr (and_congr ?_ ?_) (and_congr_right fun _ => and_congr ?_ ?_)
  · exact hend .outgoing i u hu
  · exact hend .incoming j v hv
  · exact hend .outgoing j v hv
  · exact hend .incoming i u hu

theorem connectedBy_iff (hs : s.Consistent order) (hadmitted : s.Admitted)
    (hu : s.store.node? i = some u) (hv : s.store.node? j = some v) :
    s.ConnectedBy u v label edge ↔ ∃ id slot, s.store.labels.idOf? label = some id ∧
      s.store.edges.connecting? i j id = some slot ∧ s.store.edge? slot = some edge := by
  constructor
  · rintro ⟨hcontains, rfl, hconnects⟩
    obtain ⟨slot, hslot⟩ := hs.containsEdge_iff.mp hcontains
    obtain ⟨e, he, rfl⟩ := Option.map_eq_some_iff.mp hslot
    have hid : s.store.labels.idOf? e.edge.label = some e.label :=
      hs.idOf?_label (e := e.unlinked) (Store.Sound.plain?_eq_some he)
    exact ⟨e.label, slot, hid, (hs.connecting?_iff hadmitted).mpr
      ⟨e, he, rfl, (hs.connects_iff hu hv he).mpr hconnects⟩, hslot⟩
  · rintro ⟨id, slot, hid, hconnecting, hslot⟩
    obtain ⟨e, he, rfl, hconnects⟩ := (hs.connecting?_iff hadmitted).mp hconnecting
    have hedge : e.edge = edge := by
      rw [Store.edge?_eq_some he, Option.some.injEq] at hslot
      exact hslot
    have hlabel : s.store.labels.labels.get? e.label = some label :=
      (hs.sound.labels_sound.ids_iff label e.label).mp hid
    have hlabel' := hs.sound.label_of slot e.unlinked (Store.Sound.plain?_eq_some he)
    rw [show e.unlinked.label = e.label from rfl, hlabel, Option.some.injEq] at hlabel'
    exact ⟨hs.containsEdge_iff.mpr ⟨slot, hslot⟩, hedge ▸ hlabel'.symm,
      hedge ▸ (hs.connects_iff hu hv he).mp hconnects⟩

theorem exists_ends (hs : s.Consistent order) (h : s.ConnectedBy u v label edge) :
    ∃ i j, s.store.node? i = some u ∧ s.store.node? j = some v := by
  obtain ⟨hcontains, _, hconnects⟩ := h
  obtain ⟨slot, e, he, rfl⟩ := hs.containsEdge_iff_plain?.mp hcontains
  have hsource := hs.sound.node_of_end slot e .outgoing he
  have htarget := hs.sound.node_of_end slot e .incoming he
  rcases hconnects with ⟨rfl, rfl⟩ | ⟨_, rfl, rfl⟩
  · exact ⟨e.source, e.target, hsource, htarget⟩
  · exact ⟨e.target, e.source, htarget, hsource⟩

theorem connectedBy_unique (hs : s.Consistent order) (hadmitted : s.Admitted) {a b : Edge}
    (ha : s.ConnectedBy u v label a) (hb : s.ConnectedBy u v label b) : a = b := by
  obtain ⟨i, j, hu, hv⟩ := hs.exists_ends ha
  obtain ⟨id, slot, hid, hconnecting, hslot⟩ := (hs.connectedBy_iff hadmitted hu hv).mp ha
  obtain ⟨id', slot', hid', hconnecting', hslot'⟩ := (hs.connectedBy_iff hadmitted hu hv).mp hb
  rw [hid, Option.some.injEq] at hid'
  rw [← hid', hconnecting, Option.some.injEq] at hconnecting'
  rw [← hconnecting', hslot, Option.some.injEq] at hslot'
  exact hslot'

end Consistent

theorem slotsOf_of_stored (hu : s.nodeSlot? u = .ok (some i)) (hv : s.nodeSlot? v = .ok (some j)) :
    s.slotsOf u v = .ok (some (i, j)) := by
  rw [slotsOf, hu, ok_bind, hv]
  rfl

theorem getEdge_of_stored (hu : s.nodeSlot? u = .ok (some i)) (hv : s.nodeSlot? v = .ok (some j))
    (label : String) : s.getEdge u v label = .ok ((s.store.labels.idOf? label).bind fun id =>
      (s.store.edges.connecting? i j id).bind s.store.edge?) := by
  rw [getEdge, slotsOf_of_stored hu hv]
  rfl

theorem getEdgeOfAnyLabel_of_stored (hu : s.nodeSlot? u = .ok (some i))
    (hv : s.nodeSlot? v = .ok (some j)) : s.getEdgeOfAnyLabel u v =
      .ok ((s.store.labels.toList.findSome? fun (id, _) =>
        s.store.edges.connecting? i j id).bind s.store.edge?) := by
  rw [getEdgeOfAnyLabel, slotsOf_of_stored hu hv]
  rfl

namespace Consistent

theorem getEdge_eq_some_iff (hs : s.Consistent order) (hadmitted : s.Admitted)
    (hu : s.containsNode u = true) (hv : s.containsNode v = true) :
    s.getEdge u v label = .ok (some edge) ↔ s.ConnectedBy u v label edge := by
  obtain ⟨i, hi⟩ := containsNode_iff_nodeSlot?.mp hu
  obtain ⟨j, hj⟩ := containsNode_iff_nodeSlot?.mp hv
  rw [hs.connectedBy_iff hadmitted (node?_of_nodeSlot? hi) (node?_of_nodeSlot? hj),
    getEdge_of_stored hi hj, Except.ok.injEq]
  simp only [Option.bind_eq_some_iff]
  constructor
  · rintro ⟨id, hid, slot, hconnecting, hslot⟩
    exact ⟨id, slot, hid, hconnecting, hslot⟩
  · rintro ⟨id, slot, hid, hconnecting, hslot⟩
    exact ⟨id, hid, slot, hconnecting, hslot⟩

theorem exists_getEdge (hs : s.Consistent order) (hadmitted : s.Admitted)
    (hu : s.containsNode u = true) (hv : s.containsNode v = true) :
    ∃ found, s.getEdge u v label = .ok found ∧
      ∀ edge, found = some edge ↔ s.ConnectedBy u v label edge := by
  obtain ⟨i, hi⟩ := containsNode_iff_nodeSlot?.mp hu
  obtain ⟨j, hj⟩ := containsNode_iff_nodeSlot?.mp hv
  refine ⟨_, getEdge_of_stored hi hj label, fun edge => ?_⟩
  rw [← hs.getEdge_eq_some_iff hadmitted hu hv, getEdge_of_stored hi hj, Except.ok.injEq]

/-! ### Any label

The registry lists its labels by their ids, so the first one of which an edge is found has the least
id. -/

theorem findSome?_labels (hs : s.Consistent order) {f : Nat → Option Nat}
    (hfound : (s.store.labels.toList.findSome? fun (id, _) => f id) = some slot) :
    ∃ id label, s.store.labels.idOf? label = some id ∧ f id = some slot ∧
      ∀ label' id', s.store.labels.idOf? label' = some id' → id' < id → f id' = none := by
  have hlabels := hs.sound.labels_sound
  have hlaid := hlabels.valid.toLaid
  have hsorted : s.store.labels.toList.Pairwise (·.1 < ·.1) := hlaid.pairwise_lt_toList
  have hmem : ∀ label id, (id, label) ∈ s.store.labels.toList ↔
      s.store.labels.idOf? label = some id := fun label id =>
    hlaid.mem_toList.trans (hlabels.ids_iff label id).symm
  obtain ⟨before, ⟨id, label⟩, after, hsplit, hid, hbefore⟩ := List.findSome?_eq_some_iff.mp hfound
  have hlabel : (id, label) ∈ s.store.labels.toList := by
    rw [hsplit]
    exact List.mem_append_right before List.mem_cons_self
  refine ⟨id, label, (hmem label id).mp hlabel, hid, fun label' id' hlabel' hlt => ?_⟩
  have hin := (hmem label' id').mpr hlabel'
  rw [hsplit] at hin hsorted
  rcases List.mem_append.mp hin with hin | hin
  · exact hbefore _ hin
  · -- no label from the found one on has a lower id
    have hafter := (List.pairwise_cons.mp (List.pairwise_append.mp hsorted).2.1).1
    rcases List.mem_cons.mp hin with heq | hin
    · rw [Prod.mk.injEq] at heq
      exact absurd heq.1 (Nat.ne_of_lt hlt)
    · exact absurd (hafter _ hin) (Nat.lt_asymm hlt)

theorem getEdgeOfAnyLabel_cases (hs : s.Consistent order) (hadmitted : s.Admitted)
    (hu : s.containsNode u = true) (hv : s.containsNode v = true) :
    (∃ label id edge, s.store.labels.idOf? label = some id ∧
      s.getEdge u v label = .ok (some edge) ∧
      (∀ label' id', s.store.labels.idOf? label' = some id' → id' < id →
        s.getEdge u v label' = .ok none) ∧
      s.getEdgeOfAnyLabel u v = .ok (some edge)) ∨
    ((∀ label, s.getEdge u v label = .ok none) ∧ s.getEdgeOfAnyLabel u v = .ok none) := by
  obtain ⟨i, hi⟩ := containsNode_iff_nodeSlot?.mp hu
  obtain ⟨j, hj⟩ := containsNode_iff_nodeSlot?.mp hv
  rw [getEdgeOfAnyLabel_of_stored hi hj]
  simp only [getEdge_of_stored hi hj]
  cases hfind : s.store.labels.toList.findSome? fun (id, _) =>
      s.store.edges.connecting? i j id with
  | none =>
    refine .inr ⟨fun label => ?_, rfl⟩
    cases hid : s.store.labels.idOf? label with
    | none => rfl
    | some id =>
      have hlabel := (hs.sound.labels_sound.ids_iff label id).mp hid
      have hin := hs.sound.labels_sound.valid.toLaid.mem_toList.mpr hlabel
      have hnone : s.store.edges.connecting? i j id = none :=
        List.findSome?_eq_none_iff.mp hfind _ hin
      rw [Option.bind_some, hnone]
      rfl
  | some slot =>
    obtain ⟨id, label, hid, hconnecting, hleast⟩ := hs.findSome?_labels hfind
    obtain ⟨e, he, _⟩ := (hs.connecting?_iff hadmitted).mp hconnecting
    have hslot : s.store.edge? slot = some e.edge := Store.edge?_eq_some he
    refine .inl ⟨label, id, e.edge, hid, ?_, fun label' id' hid' hlt => ?_, ?_⟩
    · rw [hid, Option.bind_some, hconnecting, Option.bind_some, hslot]
    · rw [hid', Option.bind_some, hleast label' id' hid' hlt]
      rfl
    · rw [Option.bind_some, hslot]

/-! ### Exactness -/

theorem lookupExact (hs : s.Consistent order) (hadmitted : s.Admitted) : s.LookupExact where
  unique := fun u v label a b => hs.connectedBy_unique hadmitted
  getEdge := fun u v label => hs.exists_getEdge hadmitted
  getEdge_comm := by
    intro u v label edge hu hv hundirected hfound
    rw [hs.getEdge_eq_some_iff hadmitted hu hv] at hfound
    rw [hs.getEdge_eq_some_iff hadmitted hv hu]
    obtain ⟨hcontains, hlabel, ⟨hsource, htarget⟩ | ⟨_, hsource, htarget⟩⟩ := hfound
    · exact ⟨hcontains, hlabel, .inr ⟨hundirected, hsource, htarget⟩⟩
    · exact ⟨hcontains, hlabel, .inl ⟨hsource, htarget⟩⟩
  ends_of_directed := by
    intro u v label edge hu hv hdirected hfound
    rw [hs.getEdge_eq_some_iff hadmitted hu hv] at hfound
    obtain ⟨_, _, hends | ⟨hundirected, _⟩⟩ := hfound
    · exact hends
    · rw [hdirected] at hundirected
      cases hundirected
  pairs_iff := fun _ _ _ _ => hs.find?_iff
  getEdgeOfAnyLabel := fun u v => hs.getEdgeOfAnyLabel_cases hadmitted

end Consistent

theorem History.admitted (h : History s edges) : s.Admitted := by
  induction h with
  | opened token config store catalog hopen =>
    cases store_of_open? hopen
    intro i edge hi
    rw [edge?_empty] at hi
    cases hi
  | performed s edges command h ih =>
    obtain ⟨order, hs⟩ := h.recorded
    exact (keeps_perform command s order hs.consistent).1.admitted ih
  | elsewhere s edges catalog _ _ _ ih => exact ih

theorem History.lookup_exact (h : History s edges) : s.LookupExact := by
  obtain ⟨order, hs⟩ := h.recorded
  exact hs.consistent.lookupExact h.admitted

theorem lookup_exact_looped : History looped [selfEdge] ∧ looped.LookupExact ∧
    looped.getEdge hub hub "self" = .ok (some selfEdge) := by
  have hexact := history_looped.lookup_exact
  obtain ⟨order, hrecorded⟩ := history_looped.recorded
  have hs := hrecorded.consistent
  have hnode : looped.store.node? 0 = some hub := by
    rw [Store.node?, get?_looped.1]
    rfl
  have hedge : looped.store.edge? 0 = some selfEdge := by
    rw [Store.edge?, get?_looped.2]
    rfl
  have hhub : looped.containsNode hub = true :=
    containsNode_iff_nodeSlot?.mpr ⟨0, hs.nodeSlot?_eq hnode⟩
  obtain ⟨found, hfound, hiff⟩ := hexact.getEdge hub hub "self" hhub hhub
  have hself : found = some selfEdge :=
    (hiff selfEdge).mpr ⟨hs.containsEdge_iff.mpr ⟨0, hedge⟩, rfl, .inl ⟨rfl, rfl⟩⟩
  exact ⟨history_looped, hexact, hself ▸ hfound⟩

end Session

end PropertyGraph

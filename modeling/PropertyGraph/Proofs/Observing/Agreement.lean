import PropertyGraph.Proofs.Graph.Space
import PropertyGraph.Proofs.Observing.Watching

/-!
# What an observer sees

A snapshot has exactly the members of the view, or everything stored, and ids tell them apart. An
observer that is attached to a flat view finds its record, so there is a version to compare; and what
is done to the catalog on behalf of others is not to be seen.
-/

namespace PropertyGraph

namespace Session

variable {s s' : Session} {order : List Nat} {view : View} {o : Observer} {g : Graph}
  {version : Version}

/-! ### What there is to see -/

theorem mem_nodes_iff (hs : s.Consistent order) (node : Node) :
    node ∈ s.store.nodes.nodes ↔ node ∈ (s.members none).nodes :=
  hs.sound.nodes_valid.toLaid.mem_map_values

theorem mem_edges_iff (hs : s.Consistent order) (edge : Edge) :
    edge ∈ s.store.edges.edges ↔ edge ∈ (s.members none).edges :=
  hs.sound.edges_valid.toLaid.mem_map_values

theorem snapshot_shows (hs : s.Consistent order) {view : Option View} {snapshot : Snapshot}
    (h : s.snapshot view = .ok snapshot) : snapshot.Shows (s.members view) := by
  have hlisted : ∀ {α : Type} [BEq α] [LawfulBEq α] [Hashable α] (xs : List α) (x : α),
      x ∈ Std.HashSet.ofList xs ↔ x ∈ xs :=
    fun xs x => Std.HashSet.mem_ofList.trans List.contains_iff_mem
  cases view with
  | none =>
    cases h
    exact ⟨fun node => (hlisted _ node).trans (mem_nodes_iff hs node),
      fun edge => (hlisted _ edge).trans (mem_edges_iff hs edge)⟩
  | some view =>
    rw [Session.snapshot] at h
    cases hnodes : s.viewNodes view with
    | error fault =>
      rw [hnodes] at h
      cases h
    | ok nodes =>
      rw [hnodes, ok_bind] at h
      cases hedges : s.viewEdges view with
      | error fault =>
        rw [hedges] at h
        cases h
      | ok edges =>
        rw [hedges] at h
        cases h
        refine ⟨fun node => (hlisted nodes node).trans ?_,
          fun edge => (hlisted edges edge).trans ?_⟩
        · change _ ↔ ∃ listed, s.viewNodes view = .ok listed ∧ node ∈ listed
          rw [hnodes]
          simp
        · change _ ↔ ∃ listed, s.viewEdges view = .ok listed ∧ edge ∈ listed
          rw [hedges]
          simp

theorem members_some_subset (s : Session) (view : View) :
    (s.members (some view)).nodes ⊆ (s.members none).nodes ∧
      (s.members (some view)).edges ⊆ (s.members none).edges := by
  constructor
  · rintro node ⟨nodes, hnodes, hmem⟩
    rw [viewNodes] at hnodes
    cases hr : s.viewRecord view with
    | error fault =>
      rw [hr] at hnodes
      cases hnodes
    | ok r =>
      rw [hr] at hnodes
      cases hnodes
      obtain ⟨n, _, hn⟩ := List.mem_filterMap.mp hmem
      exact ⟨n, hn⟩
  · rintro edge ⟨edges, hedges, hmem⟩
    rw [viewEdges] at hedges
    cases hr : s.viewRecord view with
    | error fault =>
      rw [hr] at hedges
      cases hedges
    | ok r =>
      rw [hr] at hedges
      cases hedges
      obtain ⟨i, _, hi⟩ := List.mem_filterMap.mp hmem
      exact ⟨i, hi⟩

theorem Settled.distinct (h : s.Settled g) (view : Option View) : (s.members view).Distinct := by
  have hstored : (s.members none).Distinct := by
    constructor
    · rintro x ⟨n, hx⟩ y ⟨m, hy⟩ hid
      exact h.nodes.id_unique hx hy hid
    · rintro x ⟨i, hx⟩ y ⟨j, hy⟩ hid
      exact h.edges.id_unique hx hy hid
  cases view with
  | none => exact hstored
  | some view =>
    obtain ⟨hnodes, hedges⟩ := s.members_some_subset view
    exact ⟨fun x hx y hy => hstored.nodes x (hnodes hx) y (hnodes hy),
      fun x hx y hy => hstored.edges x (hedges hx) y (hedges hy)⟩

/-! ### Watching a flat view -/

theorem Attends.exists_record (ho : Attends o s) (hview : o.view = some view) :
    ∃ r, s.viewRecord view = .ok r ∧ r.groups = none := by
  obtain ⟨hstore, hlive, observers, hthere, _⟩ := ho view hview
  obtain ⟨r, hr, heq⟩ := Option.map_eq_some_iff.mp hthere
  refine ⟨r, viewRecord_of_live hstore hlive hr, ?_⟩
  exact Option.isNone_iff_eq_none.mp (congrArg Prod.snd heq)

theorem Attends.exists_version (ho : Attends o s) :
    ∃ version, s.versionOf o.view = .ok version := by
  cases hview : o.view with
  | none => exact ⟨s.store.version, rfl⟩
  | some view =>
    obtain ⟨r, hr, _⟩ := ho.exists_record hview
    exact ⟨r.version, versionOf_of_viewRecord hr⟩

theorem Attends.flat (ho : Attends o s) : s.Flat o.view := by
  intro view r hview hr
  obtain ⟨r', hr', hflat⟩ := ho.exists_record hview
  rw [hr, Except.ok.injEq] at hr'
  rwa [hr']

namespace CreatesObserver

theorem flat (h : CreatesObserver s s' o version) (hflat : s.Flat o.view) : s'.Flat o.view := by
  intro view r' hview hr'
  have hversion := h.versionOf_eq
  rw [hview] at hversion
  obtain ⟨r, hr, _⟩ := viewRecord_of_versionOf hversion
  have hwatching := h.observersAt view.slot
  rw [if_pos (by rw [hview]; rfl), observersAt_of_viewRecord hr, observersAt_of_viewRecord hr',
    Option.map_some, Option.some.injEq, Prod.mk.injEq, hflat view r hview hr] at hwatching
  exact Option.isNone_iff_eq_none.mp hwatching.2

theorem attends (h : CreatesObserver s s' o version) (hflat : s.Flat o.view) : Attends o s' := by
  intro view hview
  have hversion := h.versionOf_eq
  rw [hview] at hversion
  obtain ⟨r, hr, _⟩ := viewRecord_of_versionOf hversion
  obtain ⟨hstore, hlive⟩ := live_of_viewRecord hr
  obtain ⟨snapshot, _, hcatalog⟩ := h.catalog
  refine ⟨hstore.trans h.token.symm, ?_, r.observers ++ [o], ?_, ?_⟩
  · rw [hcatalog]
    exact hlive
  · rw [h.observersAt, if_pos (by rw [hview]; rfl), observersAt_of_viewRecord hr, hflat view r hview hr]
    rfl
  · exact List.mem_append_right _ (List.mem_singleton_self o)

theorem members_eq (h : CreatesObserver s s' o version) (hs : s.Consistent order) (hflat : s.Flat o.view)
    (hcreated : (createObserver o.view o.keepsDiff s).2 = s') :
    s'.members o.view = s.members o.view := by
  subst hcreated
  exact (versionOf_perform_iff hs (.createObserver o.view o.keepsDiff) hflat (h.flat hflat)
    h.versionOf_eq h.versionOf_eq').mp rfl

end CreatesObserver

/-! ### Another catalog -/

/-- The store is the same, and the view is destroyed or not as it was. -/
structure SameFor (view : Option View) (s s' : Session) : Prop where
  store : s'.store = s.store
  isDestroyed : ∀ v, view = some v → s'.catalog.isDestroyed v = s.catalog.isDestroyed v

namespace SameFor

theorem viewRecord_eq (h : SameFor (some view) s s') : s'.viewRecord view = s.viewRecord view := by
  rw [viewRecord, viewSlot, h.store, h.isDestroyed view rfl, viewRecord, viewSlot]

theorem versionOf_eq {view : Option View} (h : SameFor view s s') :
    s'.versionOf view = s.versionOf view := by
  cases view with
  | none => rw [versionOf, h.store, versionOf]
  | some view => rw [versionOf, h.viewRecord_eq, versionOf]

theorem members_eq {view : Option View} (h : SameFor view s s') :
    s'.members view = s.members view := by
  cases view with
  | none => rw [members, h.store, members]
  | some view =>
    have hnodes : s'.viewNodes view = s.viewNodes view := by
      rw [viewNodes, h.viewRecord_eq, h.store, viewNodes]
    have hedges : s'.viewEdges view = s.viewEdges view := by
      have hshows : s'.recordShowsEdge = s.recordShowsEdge := by
        funext r i
        rw [recordShowsEdge, h.store, recordShowsEdge]
      rw [viewEdges, h.viewRecord_eq, h.store, hshows, viewEdges]
    rw [members, visibleNodes, visibleEdges, hnodes, hedges]
    rfl

theorem attends (h : SameFor o.view s s') (ho : Attends o s) : Attends o s' := by
  intro view hview
  obtain ⟨hstore, hlive, observers, hthere, hmem⟩ := ho view hview
  refine ⟨?_, ?_, observers, ?_, hmem⟩
  · rwa [h.store]
  · rwa [h.isDestroyed view hview]
  · rwa [observersAt, h.store]

end SameFor

theorem EditsWatch.sameFor {view : Option View} (h : EditsWatch o s s') : SameFor view s s' where
  store := h.store
  isDestroyed := fun v _ => by rw [Catalog.isDestroyed, h.destroyedViews, Catalog.isDestroyed]

end Session

end PropertyGraph

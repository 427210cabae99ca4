import PropertyGraph.Graph.History
import PropertyGraph.Proofs.Session.Homes

/-!
# Graphs side by side

Any number of graphs share one catalog, and elements are handed from one to another. A call on a
graph replaces its store and the catalog. The other graphs keep their stores, and of the catalog they
keep what concerns them: the homes in their stores.
-/

namespace PropertyGraph

open Session

variable {space space' : GraphSpace} {g g' : Graph} {s s' : Session} {α : Type}

namespace GraphSpace

theorem shared?_put {shared : SharedGraph} (hg : (space.shared? g).isSome) (g' : Graph) :
    (space.put g shared).shared? g' = if g' = g then some shared else space.shared? g' := by
  have hlt : g.token < space.graphs.size := by
    by_contra hge
    rw [shared?, Array.getElem?_eq_none (Nat.le_of_not_lt hge)] at hg
    cases hg
  unfold shared? put
  rw [Array.getElem?_setIfInBounds]
  by_cases hsame : g' = g
  · subst hsame
    rw [if_pos rfl, if_pos hlt, if_pos rfl, Option.join_some]
  · have hne : g.token ≠ g'.token := fun htoken => hsame (by
      cases g
      cases g'
      exact congrArg Graph.mk htoken.symm)
    rw [if_neg hne, if_neg hsame]

theorem catalog_of_session? (h : space.session? g = some s) : s.catalog = space.catalog := by
  obtain ⟨shared, _, rfl⟩ := Option.map_eq_some_iff.mp h
  rfl

/-- A call on a graph that is gone does nothing. Any other call leaves the session of its graph behind
as the action leaves it, and gives the other graphs the catalog as the action leaves it. -/
theorem run_cases (space : GraphSpace) (g : Graph) (action : Action α) :
    (space.session? g = none ∧ (g.run action space).2 = space) ∨
    ∃ s, space.session? g = some s ∧ (g.run action space).2.catalog = (action s).2.catalog ∧
      ∀ g', (g.run action space).2.session? g' =
        if g' = g then some (action s).2
        else (space.session? g').map fun other => { other with catalog := (action s).2.catalog } := by
  unfold Graph.run session?
  cases hshared : space.shared? g with
  | none => exact .inl ⟨rfl, rfl⟩
  | some shared =>
    refine .inr ⟨⟨space.catalog, shared.store⟩, rfl, ?_⟩
    simp only
    rcases action ⟨space.catalog, shared.store⟩ with ⟨answer, s'⟩
    have hg : (GraphSpace.shared? { space with catalog := s'.catalog } g).isSome := by
      change (space.shared? g).isSome
      rw [hshared]
      rfl
    refine ⟨rfl, fun g' => ?_⟩
    simp only
    rw [shared?_put hg]
    by_cases hsame : g' = g
    · rw [if_pos hsame, if_pos hsame]
      rfl
    · rw [if_neg hsame, if_neg hsame, Option.map_map]
      rfl

theorem session?_run (hs : space.session? g = some s) (action : Action α) :
    (g.run action space).2.session? g = some (action s).2 := by
  rcases run_cases space g action with ⟨hnone, _⟩ | ⟨s', hs', _, hsession⟩
  · rw [hs] at hnone
    cases hnone
  · rw [hs, Option.some.injEq] at hs'
    rw [hsession, if_pos rfl, hs']

theorem run_fst (hs : space.session? g = some s) (action : Action α) :
    (g.run action space).1 = (action s).1 := by
  obtain ⟨shared, hshared, rfl⟩ := Option.map_eq_some_iff.mp hs
  unfold Graph.run
  rw [hshared]
  rfl

theorem open_cases (space : GraphSpace) (config : Config) :
    (∃ fault, Graph.open_ config space = (.error fault, space)) ∨
    ∃ store, Store.open? space.graphs.size config = .ok store ∧
      (Graph.open_ config space).2.catalog = space.catalog ∧
      ∀ g, (Graph.open_ config space).2.session? g =
        if g.token = space.graphs.size then some ⟨space.catalog, store⟩ else space.session? g := by
  unfold Graph.open_
  simp only
  cases hopen : Store.open? space.graphs.size config with
  | error fault => exact .inl ⟨fault, rfl⟩
  | ok store =>
    refine .inr ⟨store, rfl, rfl, fun g => ?_⟩
    unfold session? shared?
    simp only [Array.getElem?_push]
    by_cases hnew : g.token = space.graphs.size
    · rw [if_pos hnew, if_pos hnew]
      rfl
    · rw [if_neg hnew, if_neg hnew]

theorem session?_of_size_le (h : space.graphs.size ≤ g.token) : space.session? g = none := by
  rw [session?, shared?, Array.getElem?_eq_none h]
  rfl

end GraphSpace

/-! ### What holds of one graph -/

/-- A graph at work: its store has its token and is consistent, and the handle maps are coherent. -/
structure Session.Settled (s : Session) (g : Graph) : Prop where
  token : s.store.token = g.token
  consistent : ∃ order, s.Consistent order
  nodes : s.nodeHandles.Coherent Node.id g.token
  edges : s.edgeHandles.Coherent Edge.id g.token

namespace Session.Settled

theorem of_kept (h : s.Settled g) (hkept : Kept s s') (hs' : ∃ order, s'.Consistent order) :
    s'.Settled g where
  token := hkept.token.trans h.token
  consistent := hs'
  nodes := by
    have hnodes := hkept.nodes.coherent
    rw [h.token] at hnodes
    exact hnodes h.nodes
  edges := by
    have hedges := hkept.edges.coherent
    rw [h.token] at hedges
    exact hedges h.edges

theorem rehome {catalog : Catalog} (h : s.Settled g)
    (hnodes : ∀ (node : Node) home, home.store = g.token →
      (catalog.nodeHomes[node]? = some home ↔ s.catalog.nodeHomes[node]? = some home))
    (hedges : ∀ (edge : Edge) home, home.store = g.token →
      (catalog.edgeHomes[edge]? = some home ↔ s.catalog.edgeHomes[edge]? = some home)) :
    ({ s with catalog } : Session).Settled g where
  token := h.token
  consistent := by
    obtain ⟨order, hs⟩ := h.consistent
    have hquiet : Quiet s { s with catalog } :=
      ⟨rfl, rfl, rfl, rfl, rfl, fun node _ => (hnodes node _ h.token).mpr,
        fun edge _ => (hedges edge _ h.token).mpr⟩
    exact ⟨order, hquiet.consistent hs⟩
  nodes := h.nodes.rehome fun node _ => hnodes node _ rfl
  edges := h.edges.rehome fun edge _ => hedges edge _ rfl

theorem of_open {token : Nat} {config : Config} {store : Store} {catalog : Catalog}
    (hopen : Store.open? token config = .ok store)
    (hnodes : ∀ (node : Node) slot, catalog.nodeHomes[node]? ≠ some ⟨token, slot⟩)
    (hedges : ∀ (edge : Edge) slot, catalog.edgeHomes[edge]? ≠ some ⟨token, slot⟩) :
    ({ catalog, store } : Session).Settled ⟨token⟩ := by
  have hs : ∃ order, ({ catalog, store } : Session).Consistent order :=
    ⟨[], consistent_opened hopen⟩
  cases store_of_open? hopen
  exact ⟨rfl, hs,
    .of_empty (node?_empty token config) (fun _ => Std.HashMap.getElem?_empty) hnodes,
    .of_empty (edge?_empty token config) (fun _ => Std.HashMap.getElem?_empty) hedges⟩

end Session.Settled

namespace GraphSpace

/-! ### What holds of all graphs -/

/-- Every graph is settled, and the home of an element is a graph that exists. -/
structure Orderly (space : GraphSpace) : Prop where
  settled : ∀ g s, space.session? g = some s → s.Settled g
  node_home : ∀ (node : Node) home, space.catalog.nodeHomes[node]? = some home →
    (space.session? ⟨home.store⟩).isSome
  edge_home : ∀ (edge : Edge) home, space.catalog.edgeHomes[edge]? = some home →
    (space.session? ⟨home.store⟩).isSome

namespace Orderly

theorem empty : Orderly {} := by
  refine ⟨fun g s hs => ?_, fun node home hhome => ?_, fun edge home hhome => ?_⟩
  · rw [session?_of_size_le (Nat.zero_le _)] at hs
    cases hs
  · rw [Std.HashMap.getElem?_empty] at hhome
    cases hhome
  · rw [Std.HashMap.getElem?_empty] at hhome
    cases hhome

theorem opened (h : Orderly space) (config : Config) : Orderly (Graph.open_ config space).2 := by
  rcases open_cases space config with ⟨fault, hopen⟩ | ⟨store, hopen, hcatalog, hsession⟩
  · rw [hopen]
    exact h
  · have hnone : space.session? ⟨space.graphs.size⟩ = none := session?_of_size_le (Nat.le_refl _)
    have hthere : ∀ token, (space.session? ⟨token⟩).isSome →
        ((Graph.open_ config space).2.session? ⟨token⟩).isSome := by
      intro token hsome
      rw [hsession]
      split
      · rfl
      · exact hsome
    refine ⟨fun g s hs => ?_, fun node home hhome => ?_, fun edge home hhome => ?_⟩
    · rw [hsession] at hs
      split at hs
      · next htoken =>
        cases hs
        have hg : g = ⟨space.graphs.size⟩ := congrArg Graph.mk htoken
        rw [hg]
        -- a home there would be the home in a graph that exists, but the token is new
        refine .of_open hopen (fun node slot hhome => ?_) fun edge slot hhome => ?_
        · have hsome := h.node_home node _ hhome
          rw [hnone] at hsome
          cases hsome
        · have hsome := h.edge_home edge _ hhome
          rw [hnone] at hsome
          cases hsome
      · exact h.settled g s hs
    · rw [hcatalog] at hhome
      exact hthere _ (h.node_home node home hhome)
    · rw [hcatalog] at hhome
      exact hthere _ (h.edge_home edge home hhome)

theorem called (h : Orderly space) (g : Graph) (command : Command) :
    Orderly (g.run command.act space).2 := by
  rcases run_cases space g command.act with
    ⟨_, hsame⟩ | ⟨s, hs, hcatalog, hsession⟩
  · rw [hsame]
    exact h
  · have hsettled := h.settled g s hs
    obtain ⟨order, hconsistent⟩ := hsettled.consistent
    obtain ⟨hkept, hleft⟩ := keeps_perform command s order hconsistent
    -- the homes in the other graphs are as they were
    have hnodes : ∀ (node : Node) home, home.store ≠ g.token →
        ((command.perform s).catalog.nodeHomes[node]? = some home ↔
          space.catalog.nodeHomes[node]? = some home) := by
      rw [← catalog_of_session? hs]
      intro node home hne
      exact hkept.nodes.elsewhere (hsettled.token ▸ hsettled.nodes) node home (hsettled.token ▸ hne)
    have hedges : ∀ (edge : Edge) home, home.store ≠ g.token →
        ((command.perform s).catalog.edgeHomes[edge]? = some home ↔
          space.catalog.edgeHomes[edge]? = some home) := by
      rw [← catalog_of_session? hs]
      intro edge home hne
      exact hkept.edges.elsewhere (hsettled.token ▸ hsettled.edges) edge home (hsettled.token ▸ hne)
    have hthere : ∀ token, (token ≠ g.token → (space.session? ⟨token⟩).isSome) →
        ((g.run command.act space).2.session? ⟨token⟩).isSome := by
      intro token hsome
      rw [hsession]
      split
      · rfl
      · next hne =>
        rw [Option.isSome_map]
        exact hsome fun htoken => hne (congrArg Graph.mk htoken)
    refine ⟨fun g' s' hs' => ?_, fun node home hhome => ?_, fun edge home hhome => ?_⟩
    · rw [hsession] at hs'
      split at hs'
      · next hsame =>
        cases hs'
        rw [hsame]
        exact hsettled.of_kept hkept hleft
      · next hne =>
        obtain ⟨other, hother, rfl⟩ := Option.map_eq_some_iff.mp hs'
        have htoken : g'.token ≠ g.token := fun htoken => hne (congrArg Graph.mk htoken)
        refine (h.settled g' other hother).rehome (fun node home hhome => ?_) fun edge home hhome => ?_
        · rw [catalog_of_session? hother]
          exact hnodes node home (hhome ▸ htoken)
        · rw [catalog_of_session? hother]
          exact hedges edge home (hhome ▸ htoken)
    · rw [hcatalog] at hhome
      exact hthere _ fun hne => h.node_home node home ((hnodes node home hne).mp hhome)
    · rw [hcatalog] at hhome
      exact hthere _ fun hne => h.edge_home edge home ((hedges edge home hne).mp hhome)

theorem elsewhere (h : Orderly space)
    (hstores : ∀ g, (space'.session? g).map (·.store) = (space.session? g).map (·.store))
    (hnodes : space'.catalog.nodeHomes = space.catalog.nodeHomes)
    (hedges : space'.catalog.edgeHomes = space.catalog.edgeHomes) : Orderly space' := by
  have hthere : ∀ token, (space.session? ⟨token⟩).isSome → (space'.session? ⟨token⟩).isSome := by
    intro token hsome
    rw [← Option.isSome_map (f := (·.store)), hstores, Option.isSome_map]
    exact hsome
  refine ⟨fun g s hs => ?_, fun node home hhome => ?_, fun edge home hhome => ?_⟩
  · have hstore := hstores g
    rw [hs, Option.map_some, eq_comm, Option.map_eq_some_iff] at hstore
    obtain ⟨before, hbefore, hstore⟩ := hstore
    have hs' : s = { before with catalog := space'.catalog } := by
      rw [← catalog_of_session? hs, hstore]
    rw [hs']
    refine (h.settled g before hbefore).rehome (fun node home _ => ?_) fun edge home _ => ?_
    · rw [hnodes, catalog_of_session? hbefore]
    · rw [hedges, catalog_of_session? hbefore]
  · rw [hnodes] at hhome
    exact hthere _ (h.node_home node home hhome)
  · rw [hedges] at hhome
    exact hthere _ (h.edge_home edge home hhome)

end Orderly

theorem History.orderly (h : History space) : Orderly space := by
  induction h with
  | empty => exact .empty
  | opened space config _ ih => exact ih.opened config
  | called space g command _ ih => exact ih.called g command
  | elsewhere space space' _ hstores hnodes hedges ih => exact ih.elsewhere hstores hnodes hedges

end GraphSpace

end PropertyGraph

import PropertyGraph.Proofs.Observing.PollRecords

/-!
# Graphs that are gone

A graph that is closed for good is gone with its store, and its token is not used again. For all the
others that makes no difference: they are as they would be if it had been left alone. So what holds of
the graphs of a history holds of the graphs that are left.
-/

namespace PropertyGraph.GraphSpace

variable {space space' : GraphSpace} {g : Graph} {s : Session} {α : Type}

/-- What is left of graphs with a past, some of which may have been closed for good. -/
def Remains (space : GraphSpace) : Prop :=
  ∃ whole, History whole ∧ whole.catalog = space.catalog ∧
    whole.graphs.size = space.graphs.size ∧
    ∀ g s, space.session? g = some s → whole.session? g = some s

theorem size_run (space : GraphSpace) (g : Graph) (action : Action α) :
    (g.run action space).2.graphs.size = space.graphs.size := by
  unfold Graph.run
  cases space.shared? g with
  | none => rfl
  | some shared => exact Array.size_setIfInBounds

namespace Remains

theorem of_history (h : History space) : Remains space := ⟨space, h, rfl, rfl, fun _ _ hs => hs⟩

theorem settled (h : Remains space) (hs : space.session? g = some s) : s.Settled g := by
  obtain ⟨whole, hwhole, _, _, hsessions⟩ := h
  exact hwhole.orderly.settled g s (hsessions g s hs)

theorem opened (h : Remains space) (config : Config) : Remains (Graph.open_ config space).2 := by
  obtain ⟨whole, hwhole, hcatalog, hsize, hsessions⟩ := h
  refine ⟨(Graph.open_ config whole).2, .opened whole config hwhole, ?_⟩
  unfold Graph.open_
  simp only [hsize]
  cases Store.open? space.graphs.size config with
  | error fault => exact ⟨hcatalog, hsize, hsessions⟩
  | ok store =>
    refine ⟨hcatalog, by simp [hsize], fun g s => ?_⟩
    have hold := hsessions g s
    unfold session? shared? at hold ⊢
    simp only [Array.getElem?_push, hsize, hcatalog] at hold ⊢
    split
    · exact id
    · exact hold

theorem called (h : Remains space) (g : Graph) (command : Command) :
    Remains (g.run command.act space).2 := by
  rcases run_cases space g command.act with
    ⟨_, hsame⟩ | ⟨s, hs, hcatalog, hsession⟩
  · rw [hsame]
    exact h
  · obtain ⟨whole, hwhole, _, hsize, hsessions⟩ := h
    have hs' := hsessions g s hs
    rcases run_cases whole g command.act with
      ⟨hnone, _⟩ | ⟨t, ht, hcatalog', hsession'⟩
    · rw [hs'] at hnone
      cases hnone
    · rw [hs', Option.some.injEq] at ht
      subst ht
      refine ⟨_, .called whole g command hwhole, hcatalog'.trans hcatalog.symm, ?_,
        fun g' s' hs'' => ?_⟩
      · rw [size_run, size_run, hsize]
      · rw [hsession] at hs''
        rw [hsession']
        split
        · next hsame => rwa [if_pos hsame] at hs''
        · next hne =>
          rw [if_neg hne] at hs''
          obtain ⟨other, hother, rfl⟩ := Option.map_eq_some_iff.mp hs''
          rw [hsessions g' other hother, Option.map_some]

theorem elsewhere (h : Remains space)
    (hstores : ∀ g, (space'.session? g).map (·.store) = (space.session? g).map (·.store))
    (hsize : space'.graphs.size = space.graphs.size)
    (hnodes : space'.catalog.nodeHomes = space.catalog.nodeHomes)
    (hedges : space'.catalog.edgeHomes = space.catalog.edgeHomes) : Remains space' := by
  obtain ⟨whole, hwhole, hcatalog, hsize', hsessions⟩ := h
  refine ⟨{ whole with catalog := space'.catalog },
    hwhole.onCatalog (by rw [hnodes, hcatalog]) (by rw [hedges, hcatalog]), rfl,
    hsize'.trans hsize.symm, fun g s hs => ?_⟩
  have hstore := hstores g
  rw [hs, Option.map_some, eq_comm, Option.map_eq_some_iff] at hstore
  obtain ⟨before, hbefore, hstore⟩ := hstore
  obtain ⟨shared, hshared, rfl⟩ := Option.map_eq_some_iff.mp (hsessions g before hbefore)
  refine Option.map_eq_some_iff.mpr ⟨shared, hshared, ?_⟩
  change Session.mk space'.catalog shared.store = s
  rw [← catalog_of_session? hs]
  exact congrArg (Session.mk s.catalog) hstore

theorem closed (h : Remains space) (g : Graph) :
    Remains { space with graphs := space.graphs.setIfInBounds g.token none } := by
  obtain ⟨whole, hwhole, hcatalog, hsize, hsessions⟩ := h
  refine ⟨whole, hwhole, hcatalog, by rw [hsize, Array.size_setIfInBounds], fun g' s hs => ?_⟩
  refine hsessions g' s ?_
  unfold session? shared? at hs ⊢
  rw [Array.getElem?_setIfInBounds] at hs
  split at hs
  · split at hs <;> cases hs
  · exact hs

end Remains

end PropertyGraph.GraphSpace

import PropertyGraph.Proofs.Freeze.Refusals
import PropertyGraph.Proofs.Graph.Closing
import PropertyGraph.Proofs.Observing.Agreement
import PropertyGraph.Proofs.Walks.Listings

/-!
# What a graph keeps that is read

A graph is kept by a call if it keeps its store, and its views are destroyed or not as they were.
The calls that a reader is refused leave everything as it was; polls and diffs touch only what observers
remember; and a call on another graph reaches this one through the catalog alone, where it destroys no
view of this graph.
-/

namespace PropertyGraph.GraphSpace

open Session

variable {space space' space'' : GraphSpace} {g g' : Graph} {shared shared' : SharedGraph}
  {s : Session} {α : Type}

def Reads (space : GraphSpace) (g : Graph) : Prop :=
  ∃ lock, space.lock? g = some lock ∧ lock.readHolds caller ≠ 0

def Writes (space : GraphSpace) (g : Graph) : Prop :=
  ∃ lock, space.lock? g = some lock ∧ lock.writer = some caller

theorem Reading.of_lock (h : space.Reading g) (hlock : space'.lock? g = space.lock? g) :
    space'.Reading g := by
  obtain ⟨shared, hshared, hreads⟩ := h
  rw [lock?, lock?, hshared, Option.map_some, Option.map_eq_some_iff] at hlock
  obtain ⟨shared', hshared', heq⟩ := hlock
  exact ⟨shared', hshared', heq ▸ hreads⟩

/-! ### A graph that stays as it is -/

/-- The graph keeps its store, and its views are destroyed or not as they were. -/
structure StoreKept (g : Graph) (space space' : GraphSpace) : Prop where
  store : (space'.session? g).map (·.store) = (space.session? g).map (·.store)
  isDestroyed : ∀ view, view.store = g.token →
    space'.catalog.isDestroyed view = space.catalog.isDestroyed view

namespace StoreKept

theorem refl (g : Graph) (space : GraphSpace) : StoreKept g space space := ⟨rfl, fun _ _ => rfl⟩

theorem trans (h : StoreKept g space space') (h' : StoreKept g space' space'') :
    StoreKept g space space'' where
  store := h'.store.trans h.store
  isDestroyed := fun view hview => (h'.isDestroyed view hview).trans (h.isDestroyed view hview)

theorem of_sameSessions (h : SameSessions space space') : StoreKept g space space' where
  store := by rw [h.session?]
  isDestroyed := fun view _ => by rw [h.catalog]

theorem exists_sameFor {view : Option View} (h : StoreKept g space space')
    (hs : space.session? g = some s) (hview : ∀ v, view = some v → v.store = g.token) :
    ∃ s', space'.session? g = some s' ∧ SameFor view s s' := by
  have hstore := h.store
  rw [hs, Option.map_some, Option.map_eq_some_iff] at hstore
  obtain ⟨s', hs', hstore⟩ := hstore
  refine ⟨s', hs', hstore, fun v hv => ?_⟩
  rw [catalog_of_session? hs', catalog_of_session? hs]
  exact h.isDestroyed v (hview v hv)

end StoreKept

theorem session?_run_of_ne (hne : g ≠ g') (action : Action α) :
    ((g'.run action space).2.session? g).map (·.store) =
      (space.session? g).map (·.store) := by
  rcases run_cases space g' action with ⟨_, hsame⟩ | ⟨s, _, _, hsession⟩
  · rw [hsame]
  · rw [hsession, if_neg hne, Option.map_map]
    rfl

theorem storeKept_called (h : space.Remains) (hother : g' ≠ g) (command : Command) :
    StoreKept g space (g'.run command.act space).2 := by
  refine ⟨session?_run_of_ne hother.symm _, fun view hview => ?_⟩
  rcases run_cases space g' command.act with ⟨_, hsame⟩ | ⟨s, hs, hcatalog, _⟩
  · rw [hsame]
  · obtain ⟨order, hconsistent⟩ := (h.settled hs).consistent
    rw [hcatalog, ← catalog_of_session? hs]
    refine ((observerEffect_perform hconsistent command).isDestroyed_cases view).resolve_right ?_
    rintro ⟨hstore, _⟩
    rw [(h.settled hs).token, hview] at hstore
    exact hother (congrArg Graph.mk hstore.symm)

theorem storeKept_poll (o : Observer) (g' : Graph) (space : GraphSpace) :
    StoreKept g space (g'.run (Command.poll o).act space).2 := by
  have hsame : ∀ s, SameFor none s (poll o s).2 ∧
      ∀ view, (poll o s).2.catalog.isDestroyed view = s.catalog.isDestroyed view := by
    intro s
    rcases poll_cases o s with ⟨_, _, h⟩ | ⟨_, _, s', _, h, heditsWatch, _⟩
    · rw [h]
      refine ⟨⟨rfl, fun v hview => ?_⟩, fun _ => rfl⟩
      cases hview
    · rw [h]
      refine ⟨heditsWatch.sameFor, fun view => ?_⟩
      have hview : SameFor (some view) s s' := heditsWatch.sameFor
      exact hview.isDestroyed view rfl
  rcases run_cases space g' (Command.poll o).act with
    ⟨_, hnothing⟩ | ⟨s, hs, hcatalog, hsession⟩
  · rw [hnothing]
    exact .refl g space
  · refine ⟨?_, fun view _ => ?_⟩
    · rw [hsession]
      split
      · next heq =>
        rw [heq, hs, Option.map_some, Option.map_some]
        exact congrArg some (hsame s).1.store
      · rw [Option.map_map]
        rfl
    · rw [hcatalog, ← catalog_of_session? hs]
      exact (hsame s).2 view

/-! ### Calls that do not touch the lock -/

/-- What every call does to the graphs that leaves the lock of a graph alone: what is left of a past
is so still, and if the caller reads the graph it stays as it is. -/
structure LockKept (g : Graph) (space space' : GraphSpace) : Prop where
  remains : space.Remains → space'.Remains
  storeKept : space.Remains → space.Reading g → StoreKept g space space'
  lock : space'.lock? g = space.lock? g

theorem SameSessions.remains (h : SameSessions space space')
    (hsize : space'.graphs.size = space.graphs.size)
    (hremains : space.Remains) : space'.Remains :=
  hremains.elsewhere (fun g => by rw [h.session?]) hsize (by rw [h.catalog]) (by rw [h.catalog])

namespace LockKept

theorem refl (g : Graph) (space : GraphSpace) : LockKept g space space :=
  ⟨id, fun _ _ => .refl g space, rfl⟩

theorem trans (h : LockKept g space space') (h' : LockKept g space' space'') :
    LockKept g space space'' where
  remains := h'.remains ∘ h.remains
  storeKept := fun hremains hreads =>
    (h.storeKept hremains hreads).trans (h'.storeKept (h.remains hremains) (hreads.of_lock h.lock))
  lock := h'.lock.trans h.lock

theorem onCatalog {catalog : Catalog} (hnodes : catalog.nodeHomes = space.catalog.nodeHomes)
    (hedges : catalog.edgeHomes = space.catalog.edgeHomes)
    (hviews : catalog.destroyedViews = space.catalog.destroyedViews) :
    LockKept g space { space with catalog } := by
  have hstores : ∀ g, (GraphSpace.session? { space with catalog } g).map (·.store) =
      (space.session? g).map (·.store) := by
    intro g
    unfold session?
    rw [Option.map_map, Option.map_map]
    rfl
  refine ⟨fun h => h.elsewhere hstores rfl hnodes hedges,
    fun _ _ => ⟨hstores g, fun view _ => ?_⟩, rfl⟩
  rw [Catalog.isDestroyed, hviews, Catalog.isDestroyed]

/-- A graph that the caller only reads is not called on, except by polls. -/
theorem called (g' : Graph) (command : Command)
    (hmay : g' = g → space.Reading g → ∃ o, command = .poll o) :
    LockKept g space (g'.run command.act space).2 where
  remains := fun h => h.called g' command
  storeKept := by
    intro h hreads
    by_cases hown : g' = g
    · obtain ⟨o, rfl⟩ := hmay hown hreads
      exact storeKept_poll o g' space
    · exact storeKept_called h hown command
  lock := lock?_run g' _ space

theorem of_sameSessions (h : SameSessions space space') (hsize : space'.graphs.size = space.graphs.size)
    (hlock : space'.lock? g = space.lock? g) : LockKept g space space' :=
  ⟨h.remains hsize, fun _ _ => .of_sameSessions h, hlock⟩

end LockKept

theorem LockKept.of_relocked (h : Relocked g' space space') (hcan : space.CanHold g) :
    LockKept g space space' := by
  by_cases hown : g' = g
  · subst hown
    rw [h.eq_of_canHold hcan]
    exact .refl g' space
  · exact .of_sameSessions h.sameSessions h.size_eq (h.lock_of_ne g (Ne.symm hown))

/-! ### Calls that hold the lock while they last -/

theorem lockKept_read (hcan : space.CanHold g) (g' : Graph) (question : Session → Except Fault α) :
    LockKept g space (g'.read question space).2 := .of_relocked (relocked_read g' question space) hcan

theorem lockKept_call (hcan : space.CanHold g) (g' : Graph) (command : Command) :
    LockKept g space (g'.call command space).2 := by
  by_cases hrefused : g' = g ∧ space.Reading g ∧ command.mode = .write
  · obtain ⟨rfl, hreads, hmode⟩ := hrefused
    rw [hreads.call hmode]
    exact .refl g' space
  · rw [Graph.call]
    rcases during_cases space g' command.mode command.act with ⟨fault, hsame⟩ | ⟨_, hmade⟩
    · rw [hsame]
      exact .refl g space
    · have hdone : LockKept g space (g'.run command.act space).2 := by
        refine .called g' command fun hown hreads => command.mode_cases.resolve_left fun hmode => ?_
        exact hrefused ⟨hown, hreads, hmode⟩
      exact hdone.trans (.of_relocked hmade (hcan.of_lock hdone.lock))

theorem lockKept_hasChanged (hcan : space.CanHold g) (o : Observer) :
    LockKept g space (o.hasChanged space).2 := by
  rw [hasChanged_apply]
  split
  · exact .refl g space
  · exact lockKept_call hcan o.graphHandle (.poll o)

theorem lockKept_takeDiff (o : Observer) : LockKept g space (o.takeDiff space).2 := by
  rw [takeDiff_apply]
  split
  · exact .refl g space
  · split
    · split
      · exact .refl g space
      · exact .onCatalog rfl rfl rfl
    · exact .refl g space

theorem lockKept_destroy (hcan : space.CanHold g) (o : Observer) :
    LockKept g space (o.destroy space).2 := by
  have hdetached : LockKept g space (o.detach space).2 :=
    lockKept_call hcan o.graphHandle (.detachObserver o)
  rw [destroy_apply]
  split
  · exact .refl g space
  · split
    · split
      · next heq =>
        rw [heq] at hdetached
        exact hdetached.trans (.onCatalog rfl rfl rfl)
      · next heq =>
        rw [heq] at hdetached
        exact hdetached
    · exact .onCatalog rfl rfl rfl

theorem lockKept_remove (it : Iterator) : LockKept g space (it.remove space).2 := by
  rcases it.remove_cases space with
    ⟨_, _, _, hrefused⟩ | ⟨_, _, _, hrefused⟩ | ⟨hcheck, hnothing | ⟨command, hmade⟩⟩
  · rw [hrefused]
    exact .refl g space
  · rw [hrefused]
    exact .refl g space
  · rw [hnothing]
    exact .refl g space
  · rw [hmade]
    refine .called _ _ fun hown hreads => ?_
    rw [hown, hreads.checkWriter] at hcheck
    cases hcheck

/-! ### Handles, and the locks of other graphs -/

theorem lockKept_put (h : space.shared? g' = some shared) (hstore : shared'.store = shared.store)
    (hlock : g' = g → shared'.lock = shared.lock) : LockKept g space (space.put g' shared') :=
  .of_sameSessions (sameSessions_put h hstore) (size_put space g' shared') (lock?_put h hlock)

theorem lockKept_share (g' : Graph) : LockKept g space (g'.share space).2 := by
  unfold Graph.share
  rw [bind_apply, Graph.shared]
  cases hshared : space.shared? g' with
  | none => exact .refl g space
  | some shared =>
    have hmore : LockKept g space (space.put g' { shared with handles := shared.handles + 1 }) :=
      lockKept_put hshared rfl fun _ => rfl
    exact hmore

theorem lockKept_close (g' : Graph)
    (hleft : g' = g → ∀ shared, space.shared? g = some shared → 1 < shared.handles) :
    LockKept g space (g'.close space).2 := by
  unfold Graph.close
  rw [bind_apply, Graph.shared]
  cases hshared : space.shared? g' with
  | none => exact .refl g space
  | some shared =>
    change LockKept g space (if shared.handles ≤ 1 then
      { space with graphs := space.graphs.setIfInBounds g'.token none }
      else space.put g' { shared with handles := shared.handles - 1 })
    split
    · next hlast =>
      have hother : g'.token ≠ g.token := by
        intro htoken
        have hown : g' = g := congrArg Graph.mk htoken
        have hmore := hleft hown shared (hown ▸ hshared)
        omega
      have hthere : GraphSpace.shared?
          { space with graphs := space.graphs.setIfInBounds g'.token none } g = space.shared? g := by
        rw [shared?, Array.getElem?_setIfInBounds_ne hother, shared?]
      have hsession : GraphSpace.session?
          { space with graphs := space.graphs.setIfInBounds g'.token none } g = space.session? g := by
        rw [session?, hthere, session?]
      exact ⟨fun h => h.closed g', fun _ _ => ⟨by rw [hsession], fun _ _ => rfl⟩,
        by rw [lock?, hthere, lock?]⟩
    · exact lockKept_put hshared rfl fun _ => rfl

theorem lockKept_enter (g' : Graph) (mode : Lock.Mode)
    (helse : g' = g → ∃ fault, (g.enter mode space).1 = .error fault) :
    LockKept g space (g'.enter mode space).2 := by
  rw [enter_apply]
  cases hshared : space.shared? g' with
  | none => exact .refl g space
  | some shared =>
    simp only
    cases hgrant : shared.lock.enter caller mode with
    | refused fault => exact .refl g space
    | waits => exact .refl g space
    | granted epoch lock =>
      refine lockKept_put hshared rfl fun hown => ?_
      obtain ⟨fault, hfault⟩ := helse hown
      rw [enter_apply, ← hown, hshared] at hfault
      simp only [hgrant] at hfault
      cases hfault

theorem lockKept_iterator (hcan : space.CanHold g) (g' : Graph) (q : Query)
    (helse : g' = g → ∃ fault, (q.iterator g space).1 = .error fault) :
    LockKept g space (q.iterator g' space).2 := by
  rcases q.opens_iterator g' space with
    ⟨fault, space', hfault, hrelocked⟩ | ⟨it, space', hmade, _, henter⟩
  · rw [hfault]
    exact .of_relocked hrelocked hcan
  · have hspace : (g'.enter .read space).2 = space' := by rw [henter]
    rw [hmade, ← hspace]
    refine lockKept_enter g' .read fun hown => ?_
    obtain ⟨fault, hfault⟩ := helse hown
    rw [← hown, hmade] at hfault
    cases hfault

theorem lockKept_leave (g' : Graph) (release : Lock → Lock.Release) (hother : g' ≠ g) :
    LockKept g space (g'.leave release space).2 := by
  rw [leave_apply]
  cases hshared : space.shared? g' with
  | none => exact .refl g space
  | some shared => exact lockKept_put hshared rfl fun hown => (hother hown).elim

theorem lockKept_open (config : Config) (hother : space.graphs.size ≠ g.token) :
    LockKept g space (Graph.open_ config space).2 := by
  have hshared : (Graph.open_ config space).2.shared? g = space.shared? g := by
    unfold Graph.open_
    simp only
    cases Store.open? space.graphs.size config with
    | error fault => rfl
    | ok store =>
      unfold shared?
      simp only
      rw [Array.getElem?_push, if_neg (Ne.symm hother)]
  have hcatalog : (Graph.open_ config space).2.catalog = space.catalog := by
    rcases open_cases space config with ⟨fault, h⟩ | ⟨_, _, h, _⟩
    · rw [h]
    · exact h
  refine ⟨fun h => h.opened config, fun _ _ => ⟨?_, fun view _ => ?_⟩, by rw [lock?, hshared, lock?]⟩
  · rw [session?, hshared, session?, hcatalog]
  · rw [hcatalog]

end PropertyGraph.GraphSpace

import PropertyGraph.Graph.Program
import PropertyGraph.Proofs.Graph.Space
import PropertyGraph.Proofs.Lock.Exclusion

/-!
# What the lock of a graph has to do with the graph

Taking a hold and giving it back change the lock and nothing else: every graph keeps its store, and
the catalog stays as it is. A call takes a hold, does its work and gives the hold back, also where its
work is refused. If the hold fits, the lock is then what it was before.
-/

namespace PropertyGraph

variable {space space' : GraphSpace} {g g' : Graph} {shared shared' : SharedGraph} {α β : Type}

namespace GraphSpace

/-! ### What calls for the lock come to -/

theorem bind_apply (a : GraphAction α) (f : α → GraphAction β) (space : GraphSpace) :
    (a >>= f) space = match a space with
      | (.ok x, space) => f x space
      | (.error fault, space) => (.error fault, space) := by
  change ExceptT.bindCont f (a space).1 (a space).2 = _
  rcases a space with ⟨answer, space⟩
  cases answer <;> rfl

theorem map_apply (f : α → β) (a : GraphAction α) (space : GraphSpace) :
    (f <$> a) space = match a space with
      | (.ok x, space) => (.ok (f x), space)
      | (.error fault, space) => (.error fault, space) := by
  rw [map_eq_pure_bind, bind_apply]
  rfl

theorem map_fst (f : α → β) (a : GraphAction α) (space : GraphSpace) :
    ((f <$> a) space).1 = (a space).1.map f := by
  rw [map_apply]
  rcases a space with ⟨_ | x, space⟩ <;> rfl

theorem enter_apply (g : Graph) (mode : Lock.Mode) (space : GraphSpace) :
    g.enter mode space = match space.shared? g with
      | none => (.error .observedGraphGone, space)
      | some shared =>
        match shared.lock.enter caller mode with
        | .granted epoch lock => (.ok (mode.hold epoch), space.put g { shared with lock })
        | .refused fault => (.error fault, space)
        | .waits => (.error .wouldWait, space) := by
  unfold Graph.enter
  rw [bind_apply, Graph.shared]
  cases space.shared? g with
  | none => rfl
  | some shared =>
    simp only
    cases shared.lock.enter caller mode <;> rfl

theorem enter_read_eq {lock : Lock} (h : space.lock? g = some lock)
    (henabled : lock.enabled = true) (hmay : lock.mayRead caller = true) :
    g.enter .read space = (.ok (.read (lock.epoch caller)), (g.enter .read space).2) := by
  obtain ⟨shared, hshared, rfl⟩ := Option.map_eq_some_iff.mp h
  rw [enter_apply, hshared]
  simp only [Lock.enter_of_mayRead henabled hmay]
  rfl

theorem leave_apply (g : Graph) (release : Lock → Lock.Release) (space : GraphSpace) :
    g.leave release space = match space.shared? g with
      | none => (.error .observedGraphGone, space)
      | some shared =>
        (.ok (), space.put g { shared with lock := (release shared.lock).lock }) := by
  unfold Graph.leave
  rw [bind_apply, Graph.shared]
  cases space.shared? g <;> rfl

theorem exists_granted_of_enter {mode : Lock.Mode} {hold : Lock.Hold}
    (h : g.enter mode space = (.ok hold, space')) :
    ∃ shared epoch lock, space.shared? g = some shared ∧
      shared.lock.enter caller mode = .granted epoch lock ∧ hold = mode.hold epoch ∧
      space' = space.put g { shared with lock } := by
  rw [enter_apply] at h
  split at h
  · cases h
  · next shared hshared =>
    split at h
    · next epoch lock hgranted =>
      cases h
      exact ⟨shared, epoch, lock, hshared, hgranted, rfl, rfl⟩
    · cases h
    · cases h

/-! ### What is kept -/

theorem session?_of_shared? (h : space.shared? g = some shared) :
    space.session? g = some ⟨space.catalog, shared.store⟩ := by
  rw [session?, h, Option.map_some]

theorem exists_shared?_of_session? {s : Session} (h : space.session? g = some s) :
    ∃ shared, space.shared? g = some shared ∧ shared.store = s.store := by
  obtain ⟨shared, hshared, rfl⟩ := Option.map_eq_some_iff.mp h
  exact ⟨shared, hshared, rfl⟩

theorem put_self (h : space.shared? g = some shared) : space.put g shared = space := by
  have hlt : g.token < space.graphs.size := by
    by_contra hge
    rw [shared?, Array.getElem?_eq_none (Nat.le_of_not_lt hge)] at h
    cases h
  have hthere : space.graphs[g.token]? = some (some shared) := by
    rw [shared?, Array.getElem?_eq_getElem hlt, Option.join_some] at h
    rw [Array.getElem?_eq_getElem hlt, h]
  have hsame : space.graphs.setIfInBounds g.token (some shared) = space.graphs := by
    refine Array.ext_getElem? fun i => ?_
    rw [Array.getElem?_setIfInBounds]
    split
    · next htoken => rw [← htoken, hthere]
    · rfl
  rw [put, hsame]

theorem shared?_put_of_shared? (h : space.shared? g = some shared) (g' : Graph) :
    (space.put g shared').shared? g' = if g' = g then some shared' else space.shared? g' :=
  shared?_put (by rw [h]; rfl) g'

theorem put_put (space : GraphSpace) (g : Graph) (shared₁ shared₂ : SharedGraph) :
    (space.put g shared₁).put g shared₂ = space.put g shared₂ := by
  simp only [put, Array.setIfInBounds_setIfInBounds]

theorem size_put (space : GraphSpace) (g : Graph) (shared : SharedGraph) :
    (space.put g shared).graphs.size = space.graphs.size := Array.size_setIfInBounds

theorem lock?_put (h : space.shared? g' = some shared) (hlock : g' = g → shared'.lock = shared.lock) :
    (space.put g' shared').lock? g = space.lock? g := by
  rw [lock?, shared?_put_of_shared? h]
  split
  · next heq => rw [lock?, heq, h, Option.map_some, Option.map_some, hlock heq.symm]
  · rfl

theorem lock?_enter_read {lock : Lock} (h : space.lock? g = some lock)
    (henabled : lock.enabled = true) (hmay : lock.mayRead caller = true) :
    (g.enter .read space).2.lock? g = some (lock.addReadHold caller) := by
  obtain ⟨shared, hshared, rfl⟩ := Option.map_eq_some_iff.mp h
  rw [enter_apply, hshared]
  simp only [Lock.enter_of_mayRead henabled hmay]
  rw [lock?, shared?_put_of_shared? hshared, if_pos rfl, Option.map_some]

theorem run_of_shared? (h : space.shared? g = some shared) (action : Action α) :
    g.run action space = ((action ⟨space.catalog, shared.store⟩).1,
      { space with catalog := (action ⟨space.catalog, shared.store⟩).2.catalog }.put g
        { shared with store := (action ⟨space.catalog, shared.store⟩).2.store }) := by
  unfold Graph.run
  rw [h]
  rfl

theorem lock?_run (g' : Graph) (action : Action α) (space : GraphSpace) :
    (g'.run action space).2.lock? g = space.lock? g := by
  cases hshared : space.shared? g' with
  | none =>
    unfold Graph.run
    rw [hshared]
  | some shared =>
    have hthere : GraphSpace.shared?
        { space with catalog := (action ⟨space.catalog, shared.store⟩).2.catalog } g' =
        some shared := hshared
    rw [run_of_shared? hshared]
    exact lock?_put hthere fun _ => rfl

theorem session?_put (h : space.shared? g = some shared) (hstore : shared'.store = shared.store)
    (g' : Graph) : (space.put g shared').session? g' = space.session? g' := by
  rw [session?, shared?_put_of_shared? h]
  split
  · next hsame =>
    rw [hsame, session?_of_shared? h, Option.map_some, hstore]
    rfl
  · rfl

/-- Nothing has changed but locks, and how many handles there are. -/
structure SameSessions (space space' : GraphSpace) : Prop where
  catalog : space'.catalog = space.catalog
  session? : ∀ g, space'.session? g = space.session? g

theorem SameSessions.refl (space : GraphSpace) : SameSessions space space := ⟨rfl, fun _ => rfl⟩

theorem sameSessions_put (h : space.shared? g = some shared) (hstore : shared'.store = shared.store) :
    SameSessions space (space.put g shared') := ⟨rfl, session?_put h hstore⟩

theorem sameSessions_enter (g : Graph) (mode : Lock.Mode) (space : GraphSpace) :
    SameSessions space (g.enter mode space).2 := by
  rw [enter_apply]
  split
  · exact .refl space
  · next shared hshared =>
    split
    · exact sameSessions_put hshared rfl
    · exact .refl space
    · exact .refl space

theorem SameSessions.history (hsame : SameSessions space space') (h : History space) : History space' :=
  .elsewhere _ _ h (fun g => congrArg _ (hsame.session? g)) (congrArg _ hsame.catalog)
    (congrArg _ hsame.catalog)

/-! ### Holds that are given back at once -/

/-- The lock of the graph excludes, and can count another hold of the caller. -/
structure CanHold (space : GraphSpace) (g : Graph) : Prop where
  exclusive : ∀ lock, space.lock? g = some lock → lock.Exclusive
  hasRoom : space.HasRoom g

theorem CanHold.of_lock (h : space.CanHold g) (hlock : space'.lock? g = space.lock? g) :
    space'.CanHold g := by
  refine ⟨?_, ?_⟩
  · rw [hlock]
    exact h.exclusive
  · unfold HasRoom
    rw [hlock]
    exact h.hasRoom

/-- A hold of a graph was taken and given back: nothing has changed, or only the lock, because it could
not count the hold. -/
structure Relocked (g : Graph) (space space' : GraphSpace) : Prop where
  sameSessions : SameSessions space space'
  size_eq : space'.graphs.size = space.graphs.size
  lock_of_ne : ∀ g', g' ≠ g → space'.lock? g' = space.lock? g'
  eq_of_canHold : space.CanHold g → space' = space

theorem Relocked.refl (g : Graph) (space : GraphSpace) : Relocked g space space :=
  ⟨.refl space, rfl, fun _ _ => rfl, fun _ => rfl⟩

theorem relocked_put (lock : Lock) (h : space.shared? g = some shared)
    (hlock : shared.lock.Exclusive → (∀ mode, shared.lock.HasRoom caller mode) → lock = shared.lock) :
    Relocked g space (space.put g { shared with lock }) where
  sameSessions := sameSessions_put h rfl
  size_eq := size_put _ _ _
  lock_of_ne := fun g' hne => lock?_put h fun heq => absurd heq.symm hne
  eq_of_canHold := by
    intro hcan
    have hthere : space.lock? g = some shared.lock := by rw [lock?, h, Option.map_some]
    rw [hlock (hcan.exclusive _ hthere) (hcan.hasRoom _ hthere)]
    exact put_self h

theorem during_of_granted {mode : Lock.Mode} {epoch : UInt64} {lock : Lock}
    (h : space.shared? g = some shared) (hgranted : shared.lock.enter caller mode = .granted epoch lock)
    (action : Action α) : g.during mode action space =
      ((action ⟨space.catalog, shared.store⟩).1,
        { space with catalog := (action ⟨space.catalog, shared.store⟩).2.catalog }.put g
          { shared with
            lock := (lock.leaveHold caller (mode.hold epoch)).lock
            store := (action ⟨space.catalog, shared.store⟩).2.store }) := by
  have hheld : (space.put g { shared with lock }).shared? g = some { shared with lock } := by
    rw [shared?_put_of_shared? h, if_pos rfl]
  have htake : Guard.take g mode space =
      (.ok ⟨g, mode.hold epoch⟩, space.put g { shared with lock }) := by
    rw [Guard.take, bind_apply, enter_apply, h]
    simp only [hgranted]
    rfl
  rw [Graph.during, bind_apply, htake]
  have hcatalog : (space.put g { shared with lock }).catalog = space.catalog := rfl
  simp only [Guard.around, run_of_shared? hheld, hcatalog]
  generalize action ⟨space.catalog, shared.store⟩ = done
  have hthere : GraphSpace.shared? { space with catalog := done.2.catalog } g = some shared := h
  change (done.1, (g.leave (·.leaveHold caller (mode.hold epoch))
    ((GraphSpace.put { space with catalog := done.2.catalog } g { shared with lock }).put g
      { shared with lock, store := done.2.store })).2) = _
  rw [put_put, leave_apply, shared?_put_of_shared? hthere, if_pos rfl]
  simp only [put_put]

theorem during_of_refused {mode : Lock.Mode} {fault : Fault} (h : space.shared? g = some shared)
    (hrefused : shared.lock.enter caller mode = .refused fault) (action : Action α) :
    g.during mode action space = (.error fault, space) := by
  rw [Graph.during, bind_apply, Guard.take, bind_apply, enter_apply, h]
  simp only [hrefused]

theorem during_of_gone (h : space.shared? g = none) (mode : Lock.Mode) (action : Action α) :
    g.during mode action space = (.error .observedGraphGone, space) := by
  rw [Graph.during, bind_apply, Guard.take, bind_apply, enter_apply, h]

/-- A call that is granted answers what its action answers, and leaves the session of its graph behind
as the action leaves it. -/
theorem during_session_of_granted {mode : Lock.Mode} {epoch : UInt64} {lock : Lock}
    (h : space.shared? g = some shared) (hgranted : shared.lock.enter caller mode = .granted epoch lock)
    (action : Action α) :
    (g.during mode action space).1 = (action ⟨space.catalog, shared.store⟩).1 ∧
      (g.during mode action space).2.session? g = some (action ⟨space.catalog, shared.store⟩).2 := by
  rw [during_of_granted h hgranted]
  refine ⟨rfl, ?_⟩
  have hthere : GraphSpace.shared?
      { space with catalog := (action ⟨space.catalog, shared.store⟩).2.catalog } g = some shared := h
  rw [session?, shared?_put_of_shared? hthere, if_pos rfl]
  rfl

/-- A call is refused and changes nothing, or it answers what its action answers, and leaves behind what
its action leaves behind, up to the lock. -/
theorem during_cases (space : GraphSpace) (g : Graph) (mode : Lock.Mode) (action : Action α) :
    (∃ fault, g.during mode action space = (.error fault, space)) ∨
      (g.during mode action space).1 = (g.run action space).1 ∧
        Relocked g (g.run action space).2 (g.during mode action space).2 := by
  cases hshared : space.shared? g with
  | none => exact .inl ⟨_, during_of_gone hshared mode action⟩
  | some shared =>
    cases hgranted : shared.lock.enter caller mode with
    | refused fault => exact .inl ⟨fault, during_of_refused hshared hgranted action⟩
    | waits =>
      refine .inl ⟨.wouldWait, ?_⟩
      rw [Graph.during, bind_apply, Guard.take, bind_apply, enter_apply, hshared]
      simp only [hgranted]
    | granted epoch lock =>
      rw [during_of_granted hshared hgranted, run_of_shared? hshared]
      generalize action ⟨space.catalog, shared.store⟩ = done
      have hthere : GraphSpace.shared? { space with catalog := done.2.catalog } g = some shared :=
        hshared
      have hleft : (GraphSpace.put { space with catalog := done.2.catalog } g
          { shared with store := done.2.store }).shared? g =
            some { shared with store := done.2.store } := by
        rw [shared?_put_of_shared? hthere, if_pos rfl]
      have hrelocked := relocked_put (lock.leaveHold caller (mode.hold epoch)).lock hleft
        fun hexclusive hfits => hexclusive.leaveHold_of_enter (hfits mode) hgranted
      rw [put_put] at hrelocked
      exact .inr ⟨rfl, hrelocked⟩

theorem run_ask_snd (g : Graph) (question : Session → Except Fault α) (space : GraphSpace) :
    (g.run (.ask question) space).2 = space := by
  cases hshared : space.shared? g with
  | none =>
    unfold Graph.run
    rw [hshared]
  | some shared =>
    rw [run_of_shared? hshared]
    exact put_self hshared

theorem relocked_read (g : Graph) (question : Session → Except Fault α) (space : GraphSpace) :
    Relocked g space (g.read question space).2 := by
  rcases during_cases space g .read (.ask question) with ⟨fault, hrefused⟩ | ⟨_, hmade⟩
  · rw [Graph.read, hrefused]
    exact .refl g space
  · rwa [run_ask_snd] at hmade

theorem History.during (h : History space) (g : Graph) (mode : Lock.Mode) (command : Command) :
    History (g.during mode command.act space).2 := by
  rcases during_cases space g mode command.act with ⟨fault, hrefused⟩ | ⟨_, hmade⟩
  · rw [hrefused]
    exact h
  · exact hmade.sameSessions.history (.called space g command h)

theorem relocked_drop {hold : Lock.Hold} (h : g.enter .read space = (.ok hold, space')) :
    Relocked g space (Guard.drop ⟨g, hold⟩ space').2 := by
  obtain ⟨shared, epoch, lock, hshared, hgranted, rfl, rfl⟩ := exists_granted_of_enter h
  rw [Guard.drop, leave_apply, shared?_put_of_shared? hshared, if_pos rfl]
  simp only [put_put]
  exact relocked_put _ hshared fun hexclusive hfits =>
    hexclusive.leaveHold_of_enter (hfits .read) hgranted

/-! ### Calls that were answered -/

theorem exists_of_bind {f : α → GraphAction β} {a : GraphAction α} {y : β}
    (h : (a >>= f) space = (.ok y, space')) :
    ∃ x between, a space = (.ok x, between) ∧ f x between = (.ok y, space') := by
  rw [bind_apply] at h
  rcases ha : a space with ⟨_ | x, between⟩
  · rw [ha] at h
    cases h
  · rw [ha] at h
    exact ⟨x, between, rfl, h⟩

theorem exists_of_map {f : α → β} {a : GraphAction α} {y : β}
    (h : (f <$> a) space = (.ok y, space')) : ∃ x, a space = (.ok x, space') ∧ f x = y := by
  rw [map_apply] at h
  rcases ha : a space with ⟨_ | x, between⟩
  · rw [ha] at h
    cases h
  · rw [ha] at h
    cases h
    exact ⟨x, rfl, rfl⟩

theorem answer_of_ask {guard : Guard} {question : Session → Except Fault α} {x : α} {s : Session}
    (hs : space.session? guard.graph = some s) (h : guard.ask question space = (.ok x, space')) :
    space' = space ∧ question s = .ok x := by
  have hanswer : (guard.graph.run (.ask question) space).1 = question s := run_fst hs _
  have hleft := run_ask_snd guard.graph question space
  rw [Guard.ask] at h
  rcases hrun : guard.graph.run (.ask question) space with ⟨_ | y, between⟩
  · rw [hrun] at h
    cases h
  · rw [hrun] at h hanswer hleft
    cases h
    exact ⟨hleft, hanswer.symm⟩

theorem ask_of_ok {guard : Guard} {question : Session → Except Fault α} {x : α} {s : Session}
    (hs : space.session? guard.graph = some s) (hx : question s = .ok x) :
    guard.ask question space = (.ok x, space) := by
  have hrun : guard.graph.run (.ask question) space = (.ok x, space) :=
    Prod.ext ((run_fst hs _).trans hx) (run_ask_snd guard.graph question space)
  rw [Guard.ask, hrun]

theorem exists_of_take {guard : Guard} {mode : Lock.Mode}
    (h : Guard.take g mode space = (.ok guard, space')) :
    guard.graph = g ∧ g.enter mode space = (.ok guard.hold, space') := by
  obtain ⟨hold, between, henter, hdone⟩ := exists_of_bind h
  cases hdone
  exact ⟨rfl, henter⟩

theorem take_of_enter {mode : Lock.Mode} {hold : Lock.Hold}
    (h : g.enter mode space = (.ok hold, space')) :
    Guard.take g mode space = (.ok ⟨g, hold⟩, space') := by
  rw [Guard.take, bind_apply, h]
  rfl

theorem session?_of_take {guard : Guard} {mode : Lock.Mode} {s : Session}
    (hs : space.session? g = some s) (h : Guard.take g mode space = (.ok guard, space')) :
    space'.session? guard.graph = some s := by
  obtain ⟨hgraph, henter⟩ := exists_of_take h
  have hsame := (sameSessions_enter g mode space).session? g
  rwa [henter, hs, ← hgraph] at hsame

theorem fst_of_held {ι : Type} (guard : ι → Guard) (answer : ι → GraphSpace → β)
    {start : GraphAction ι} {it : ι} {s : Session} (h : start space = (.ok it, space'))
    (hs : space'.session? (guard it).graph = some s) :
    ((do
      let it ← start
      let space ← get
      (guard it).drop
      return answer it space : GraphAction β) space).1 = .ok (answer it space') := by
  obtain ⟨shared, hshared, _⟩ := exists_shared?_of_session? hs
  rw [bind_apply, h]
  change ((get >>= fun between => _ : GraphAction β) space').1 = _
  rw [bind_apply]
  change (((guard it).drop >>= fun _ => pure (answer it space') : GraphAction β) space').1 = _
  rw [bind_apply, Guard.drop, leave_apply, hshared]
  rfl

end GraphSpace

/-! ### Actions that open something -/

namespace GraphAction

open GraphSpace

/-- The action takes a read hold of the graph for what it answers. If it fails, it has given the hold
back, if it had one. -/
def Opens (a : GraphAction α) (g : Graph) (guard : α → Guard) : Prop :=
  ∀ space, (∃ fault space', a space = (.error fault, space') ∧ Relocked g space space') ∨
    ∃ x space', a space = (.ok x, space') ∧ (guard x).graph = g ∧
      g.enter .read space = (.ok (guard x).hold, space')

theorem opens_take (g : Graph) : Opens (Guard.take g .read) g id := by
  intro space
  rw [Guard.take, bind_apply]
  cases hshared : space.shared? g with
  | none => exact .inl ⟨.observedGraphGone, space, by rw [enter_apply, hshared], .refl g space⟩
  | some shared =>
    cases hgrant : shared.lock.enter caller .read with
    | refused fault =>
      exact .inl ⟨fault, space, by rw [enter_apply, hshared]; simp only [hgrant], .refl g space⟩
    | waits =>
      exact .inl ⟨.wouldWait, space, by rw [enter_apply, hshared]; simp only [hgrant], .refl g space⟩
    | granted epoch lock =>
      have henter : g.enter .read space =
          (.ok (.read epoch), space.put g { shared with lock }) := by
        rw [enter_apply, hshared]
        simp only [hgrant]
        rfl
      rw [henter]
      exact .inr ⟨⟨g, .read epoch⟩, _, rfl, rfl, rfl⟩

theorem Opens.bind_pure {a : GraphAction α} {f : α → β} {guard : α → Guard} {guard' : β → Guard}
    (ha : Opens a g guard) (hguard : ∀ x, guard' (f x) = guard x) :
    Opens (a >>= fun x => pure (f x)) g guard' := by
  intro space
  rw [bind_apply]
  rcases ha space with ⟨fault, space', hfault, hrelocked⟩ | ⟨x, space', hx, hgraph, henter⟩
  · rw [hfault]
    exact .inl ⟨fault, space', rfl, hrelocked⟩
  · rw [hx]
    exact .inr ⟨f x, space', rfl, by rw [hguard, hgraph], by rw [hguard, henter]⟩

theorem Opens.ask {γ : Type} {a : GraphAction Guard} (ha : Opens a g id)
    (question : Session → Except Fault γ) {f : Guard → γ → α} {guard' : α → Guard}
    (hguard : ∀ guard x, guard' (f guard x) = guard) :
    Opens (a >>= fun guard => guard.ask question >>= fun x => pure (f guard x)) g guard' := by
  intro space
  rw [bind_apply]
  rcases ha space with ⟨fault, space', hfault, hrelocked⟩ | ⟨guard, space', hmade, hgraph, henter⟩
  · rw [hfault]
    exact .inl ⟨fault, space', rfl, hrelocked⟩
  · rw [hmade]
    have hleft := run_ask_snd guard.graph question space'
    simp only [bind_apply, Guard.ask]
    rcases hrun : guard.graph.run (.ask question) space' with ⟨fault | x, between⟩
    · rw [hrun] at hleft
      subst hleft
      have hdropped := relocked_drop henter
      rw [id_eq] at hgraph
      subst hgraph
      exact .inl ⟨fault, _, rfl, hdropped⟩
    · rw [hrun] at hleft
      subst hleft
      exact .inr ⟨f guard x, between, rfl, by rw [hguard]; exact hgraph, by rw [hguard]; exact henter⟩

theorem Opens.map {a : GraphAction α} {f : α → β} {guard : α → Guard} {guard' : β → Guard}
    (ha : Opens a g guard) (hguard : ∀ x, guard' (f x) = guard x) :
    Opens (f <$> a) g guard' := by
  rw [map_eq_pure_bind]
  exact ha.bind_pure hguard

end GraphAction

end PropertyGraph

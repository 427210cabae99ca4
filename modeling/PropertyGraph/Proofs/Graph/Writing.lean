import PropertyGraph.Proofs.Freeze.StoreKept

/-!
# What is granted to a caller who writes

A caller who holds a graph for writing is refused no change of it, and does not cease to write when an
iterator takes a hold to read besides. Where there is no locking, everyone is such a caller.
-/

namespace PropertyGraph

namespace GraphSpace

variable {space space' : GraphSpace} {g : Graph}

/-- The lock lets the caller change the graph: the caller holds the graph for writing, or there is no
locking. -/
def IsWriter (space : GraphSpace) (g : Graph) : Prop :=
  ∃ lock, space.lock? g = some lock ∧ lock.isWriter caller = true

theorem IsWriter.run {α : Type} {g' : Graph} (h : space.IsWriter g) (action : Action α) :
    (g'.run action space).2.IsWriter g := by
  rwa [IsWriter, lock?_run]

/-- What a writer asks for is done, and if the hold fits the lock is left as it was. -/
theorem IsWriter.during_write {α : Type} (h : space.IsWriter g) (hcan : space.CanHold g)
    (action : Action α) : g.during .write action space = g.run action space := by
  obtain ⟨lock, hlock, hwriter⟩ := h
  have hexclusive := hcan.exclusive lock hlock
  have hroom := hcan.hasRoom lock hlock .write
  obtain ⟨shared, hshared, rfl⟩ := Option.map_eq_some_iff.mp hlock
  obtain ⟨epoch, lock, hgranted⟩ : ∃ epoch lock,
      shared.lock.enter caller .write = .granted epoch lock := by
    rw [Lock.isWriter, Bool.or_eq_true, beq_iff_eq] at hwriter
    unfold Lock.enter Lock.enterWrite
    rcases hwriter with hdisabled | hwriter
    · exact ⟨_, _, if_pos hdisabled⟩
    · simp only [hwriter, if_true]
      split
      · exact ⟨_, _, rfl⟩
      · exact ⟨_, _, rfl⟩
  rw [during_of_granted hshared hgranted, run_of_shared? hshared,
    hexclusive.leaveHold_of_enter hroom hgranted]

theorem IsWriter.checkWriter (h : space.IsWriter g) : g.checkWriter space = (.ok (), space) := by
  obtain ⟨lock, hlock, hwriter⟩ := h
  obtain ⟨shared, hshared, rfl⟩ := Option.map_eq_some_iff.mp hlock
  rw [checkWriter_apply, hshared]
  simp only [Lock.checkWriter, hwriter, if_true]

theorem IsWriter.of_enter {hold : Lock.Hold} (h : space.IsWriter g)
    (henter : g.enter .read space = (.ok hold, space')) : space'.IsWriter g := by
  obtain ⟨shared, epoch, lock, hshared, hgranted, _, rfl⟩ := exists_granted_of_enter henter
  obtain ⟨_, hlock, hwriter⟩ := h
  rw [lock?, hshared, Option.map_some, Option.some.injEq] at hlock
  subst hlock
  refine ⟨lock, ?_, ?_⟩
  · rw [lock?, shared?_put_of_shared? hshared, if_pos rfl, Option.map_some]
  · rw [Lock.enter, Lock.enterRead] at hgranted
    split at hgranted
    · cases hgranted
      exact hwriter
    · split at hgranted
      · cases hgranted
        exact hwriter
      · cases hgranted

theorem lock?_enter_write (h : space.lock? g = some {}) :
    (g.enter .write space).2.lock? g = some (({} : Lock).setWriter caller) := by
  obtain ⟨shared, hshared, hfree⟩ := Option.map_eq_some_iff.mp h
  rw [enter_apply, hshared]
  simp only [hfree, Lock.free_empty.enter_eq]
  rw [lock?, shared?_put_of_shared? hshared, if_pos rfl, Option.map_some]

/-- Who has just become the writer and reads besides can take another hold. -/
theorem canHold_enter_read (h : space.lock? g = some (({} : Lock).setWriter caller)) :
    (g.enter .read space).2.CanHold g := by
  have hmay : ({} : Lock).mayWrite = true := Lock.mayWrite_iff.mpr Lock.free_empty
  have hwriting : (({} : Lock).setWriter caller).Exclusive :=
    (Lock.Exclusive.free.grants_iff (.write hmay)).mpr (Lock.free_empty.hasRoom .write)
  have hnone : (({} : Lock).setWriter caller).readHolds caller = 0 :=
    Lock.free_empty.readHolds_eq caller
  have hroom : (({} : Lock).setWriter caller).HasRoom caller .read := by
    change (({} : Lock).setWriter caller).readHolds caller + 1 ≠ 0
    rw [hnone]
    decide
  have hlock := lock?_enter_read h rfl rfl
  refine ⟨fun lock hthere => ?_, fun lock hthere mode => ?_⟩
  · rw [hlock, Option.some.injEq] at hthere
    exact hthere ▸ hwriting.addReadHold rfl hroom
  · rw [hlock, Option.some.injEq] at hthere
    subst hthere
    cases mode with
    | read =>
      change ((({} : Lock).setWriter caller).addReadHold caller).readHolds caller + 1 ≠ 0
      rw [Lock.readHolds_addReadHold, hnone, if_pos rfl]
      decide
    | write =>
      intro _
      change (1 : UInt32) + 1 ≠ 0
      decide

/-! ### A graph that the caller writes -/

def heldAfter (commands : List Command) : GraphSpace :=
  (Graph.enter ⟨0⟩ .write (commands.foldl (fun space command => (Graph.run ⟨0⟩ command.act space).2)
    (Graph.open_ {} {}).2)).2

theorem history_foldl_run (g : Graph) (h : History space) (commands : List Command) :
    History (commands.foldl (fun space command => (g.run command.act space).2) space) := by
  induction commands generalizing space with
  | nil => exact h
  | cons command rest ih => exact ih (.called space g command h)

theorem session?_foldl_run {s : Session} (h : space.session? g = some s) (commands : List Command) :
    (commands.foldl (fun space command => (g.run command.act space).2) space).session? g =
      some (commands.foldl (fun s command => command.perform s) s) := by
  induction commands generalizing space s with
  | nil => exact h
  | cons command rest ih => exact ih (session?_run h command.act)

theorem lock?_foldl_run (g' : Graph) (commands : List Command) :
    (commands.foldl (fun space command => (g'.run command.act space).2) space).lock? g =
      space.lock? g := by
  induction commands generalizing space with
  | nil => rfl
  | cons command rest ih => exact ih.trans (lock?_run g' command.act space)

theorem history_heldAfter (commands : List Command) : History (heldAfter commands) :=
  (sameSessions_enter ⟨0⟩ .write _).history (history_foldl_run ⟨0⟩ (.opened _ {} .empty) commands)

theorem session?_heldAfter (commands : List Command) : (heldAfter commands).session? ⟨0⟩ =
    some (commands.foldl (fun s command => command.perform s) Session.opened) := by
  rw [heldAfter, (sameSessions_enter ⟨0⟩ .write _).session?]
  exact session?_foldl_run rfl commands

theorem lock?_heldAfter (commands : List Command) :
    (heldAfter commands).lock? ⟨0⟩ = some (({} : Lock).setWriter caller) :=
  lock?_enter_write (lock?_foldl_run ⟨0⟩ commands)

end GraphSpace

end PropertyGraph

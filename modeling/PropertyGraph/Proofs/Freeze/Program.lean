import PropertyGraph.Proofs.Freeze.StoreKept
import PropertyGraph.Proofs.Lock.Owners

/-!
# Who reads and who writes

As long as the graph can count one hold more, a call that a program makes does not touch the lock of the
graph that it works on, or takes or gives back one hold. So that lock comes from what the program has
done, and a guard that owns a hold keeps the graph as it is.
-/

namespace PropertyGraph

open GraphSpace

theorem Lock.Unlock.call_eq (g : Graph) (what : Unlock) :
    what.call g = g.leave (what.release caller) := by
  cases what <;> rfl

namespace Program

/-! ### What a step does -/

variable {g : Graph} {p p' : Program} {number : Nat}

/-- The lock of the graph with the guards of the program and what it has done. Nobody waits: there is no
other thread. -/
def threads (p : Program) (lock : Lock) : Lock.Threads where
  monitor := { lock }
  guards := p.guards
  log := p.log

/-- What a step comes to for the graph: it does not touch the lock, the graph is opened, or its lock
changes and nothing else. -/
inductive Turn (g : Graph) (p p' : Program) : Prop
  | lockKept (hlockKept : LockKept g p.space p'.space) (hguards : p'.guards = p.guards)
      (hlog : p'.log = p.log)
  | born (hremains : p.space.Remains → p'.space.Remains) (hbefore : p.space.lock? g = none)
    (hlock : p'.space.lock? g = some {}) (hguards : p'.guards = p.guards) (hlog : p'.log = p.log)
  | moved (lock lock' : Lock) (hsameSessions : SameSessions p.space p'.space)
    (hsize : p'.space.graphs.size = p.space.graphs.size) (hlock : p.space.lock? g = some lock)
    (hlock' : p'.space.lock? g = some lock')
    (hstep : Lock.Threads.Step (p.threads lock) (p'.threads lock'))
    (hfits : Lock.Threads.Fits (p.threads lock) (p'.threads lock'))

theorem turn_of_put {shared : SharedGraph} {lock : Lock} (hshared : p.space.shared? g = some shared)
    (hspace : p'.space = p.space.put g { shared with lock })
    (hstep : Lock.Threads.Step (p.threads shared.lock) (p'.threads lock))
    (hfits : Lock.Threads.Fits (p.threads shared.lock) (p'.threads lock)) : Turn g p p' := by
  have hlock : p.space.lock? g = some shared.lock := by rw [lock?, hshared, Option.map_some]
  have hlock' : p'.space.lock? g = some lock := by
    rw [hspace, lock?, shared?_put_of_shared? hshared, if_pos rfl, Option.map_some]
  refine .moved shared.lock lock ?_ ?_ hlock hlock' hstep hfits
  · rw [hspace]
    exact sameSessions_put hshared rfl
  · rw [hspace]
    exact size_put p.space g _

theorem turn_of_enter {mode : Lock.Mode} {guard : Option Nat} {hold : Lock.Hold}
    {space : GraphSpace} (hroom : p.space.HasRoom g) (hnew : p.Unused guard)
    (hcall : g.enter mode p.space = (.ok hold, space)) :
    Turn g p (p.take space mode guard hold) := by
  obtain ⟨shared, epoch, lock, hshared, hgranted, rfl, rfl⟩ := exists_granted_of_enter hcall
  have hlock : p.space.lock? g = some shared.lock := by rw [lock?, hshared, Option.map_some]
  exact turn_of_put hshared rfl (Lock.Threads.step_of_enter hnew hgranted)
    (.of_take (hroom _ hlock mode))

theorem turn_of_leave {release : Lock → Lock.Release} {space : GraphSpace}
    (hcall : g.leave release p.space = (.ok (), space)) (hspace : p'.space = space)
    (hstep : ∀ lock, Lock.Threads.Step (p.threads lock) (p'.threads (release lock).lock))
    (hfits : ∀ lock, Lock.Threads.Fits (p.threads lock) (p'.threads (release lock).lock)) :
    Turn g p p' := by
  rw [leave_apply] at hcall
  split at hcall
  · cases hcall
  · next shared hshared =>
    cases hcall
    exact turn_of_put hshared hspace (hstep shared.lock) (hfits shared.lock)

theorem turn_of_open (config : Config)
    (hlocking : p.space.graphs.size = g.token → config.locking = true) :
    Turn g p { p with space := (Graph.open_ config p.space).2 } := by
  by_cases hown : p.space.graphs.size = g.token
  · cases hopen : Store.open? p.space.graphs.size config with
    | error fault =>
      refine .lockKept ?_ rfl rfl
      have hnothing : (Graph.open_ config p.space).2 = p.space := by
        unfold Graph.open_
        simp only [hopen]
      rw [hnothing]
      exact .refl g p.space
    | ok store =>
      have hnone : p.space.shared? g = none := by
        rw [shared?, Array.getElem?_eq_none (Nat.le_of_eq hown)]
        rfl
      refine .born (fun h => h.opened config) (by rw [lock?, hnone, Option.map_none]) ?_ rfl rfl
      rw [hown] at hopen
      unfold Graph.open_ lock? shared?
      simp only [hown, hopen, Array.getElem?_push, hlocking hown]
      rfl
  · exact .lockKept (lockKept_open config hown) rfl rfl

theorem Step.turn (hstep : Step g p p') (hcan : p.space.CanHold g) : Turn g p p' := by
  cases hstep with
  | opened config hlocking => exact turn_of_open config hlocking
  | shared g' => exact .lockKept (lockKept_share g') rfl rfl
  | closed g' hleft => exact .lockKept (lockKept_close g' hleft) rfl rfl
  | entered mode guard hold space hnew hcall => exact turn_of_enter hcan.hasRoom hnew hcall
  | begun q number it space hnew hcall =>
    exact turn_of_enter hcan.hasRoom hnew (Query.enter_of_iterator hcall).2
  | gave what space hcall =>
    rw [what.call_eq] at hcall
    refine turn_of_leave hcall rfl (fun lock => ?_) fun lock =>
      Lock.Threads.fits_of_log_eq (.gave caller what) rfl nofun
    have hgave := Lock.Threads.Step.gave (x := p.threads lock) caller what
    rwa [threads, Lock.Threads.leave_idle] at hgave
  | dropped number hold space hopen hcall =>
    refine turn_of_leave hcall rfl (fun lock => ?_) fun lock =>
      Lock.Threads.fits_of_log_eq (.dropped caller number) rfl nofun
    have hdropped := Lock.Threads.Step.dropped (x := p.threads lock) _ hopen
    rwa [threads, Lock.Threads.leave_idle] at hdropped
  | enteredElse g' mode helse => exact .lockKept (lockKept_enter g' mode helse) rfl rfl
  | begunElse g' q helse => exact .lockKept (lockKept_iterator hcan g' q helse) rfl rfl
  | leftElse g' release hother => exact .lockKept (lockKept_leave g' release hother) rfl rfl
  | called g' command => exact .lockKept (lockKept_call hcan g' command) rfl rfl
  | asked g' question => exact .lockKept (lockKept_read hcan g' question) rfl rfl
  | polled o => exact .lockKept (lockKept_hasChanged hcan o) rfl rfl
  | took o => exact .lockKept (lockKept_takeDiff o) rfl rfl
  | ended o => exact .lockKept (lockKept_destroy hcan o) rfl rfl
  | removed it => exact .lockKept (lockKept_remove it) rfl rfl
  | elsewhere catalog hnodes hedges hviews => exact .lockKept (.onCatalog hnodes hedges hviews) rfl rfl

/-! ### What a run comes to -/

theorem threads_congr (hguards : p'.guards = p.guards) (hlog : p'.log = p.log) (lock : Lock) :
    p'.threads lock = p.threads lock := by
  rw [threads, hguards, hlog, threads]

theorem canHold_of_lock? (hroom : p.space.HasRoom g)
    (hlocked : ∀ lock, p.space.lock? g = some lock → (p.threads lock).Unwrapped) :
    p.space.CanHold g := ⟨fun lock hlock => (hlocked lock hlock).exclusive, hroom⟩

theorem InRange.lock_cases (h : InRange g p) :
    (p.space.lock? g = none ∧ p.guards = [] ∧ p.log = []) ∨
    ∃ lock, p.space.lock? g = some lock ∧ (p.threads lock).Unwrapped := by
  induction h with
  | start => exact .inl ⟨rfl, rfl, rfl⟩
  | step p p' _ hroom hstep ih =>
    have hcan : p.space.CanHold g := by
      refine canHold_of_lock? hroom fun lock hlock => ?_
      rcases ih with ⟨hnone, _⟩ | ⟨lock', hthere, hunwrapped⟩
      · rw [hnone] at hlock
        cases hlock
      · rw [hthere, Option.some.injEq] at hlock
        exact hlock ▸ hunwrapped
    cases hstep.turn hcan with
    | lockKept hlockKept hguards hlog =>
      rw [hlockKept.lock, hguards, hlog]
      simp only [threads_congr hguards hlog]
      exact ih
    | born _ hbefore hlock hguards hlog =>
      rcases ih with ⟨_, hnone, hnothing⟩ | ⟨lock, hthere, _⟩
      · refine .inr ⟨{}, hlock, ?_⟩
        rw [threads, hguards, hlog, hnone, hnothing]
        exact .start
      · rw [hbefore] at hthere
        cases hthere
    | moved lock lock' _ _ hlock hlock' hmoved hfits =>
      rcases ih with ⟨hnone, _⟩ | ⟨lock'', hthere, hunwrapped⟩
      · rw [hnone] at hlock
        cases hlock
      · rw [hlock, Option.some.injEq] at hthere
        subst hthere
        exact .inr ⟨lock', hlock', .step _ _ hunwrapped hmoved hfits⟩

theorem InRange.threads {lock : Lock} (h : InRange g p) (hlock : p.space.lock? g = some lock) :
    (p.threads lock).Unwrapped := by
  rcases h.lock_cases with ⟨hnone, _⟩ | ⟨lock', hthere, hunwrapped⟩
  · rw [hnone] at hlock
    cases hlock
  · rw [hlock, Option.some.injEq] at hthere
    exact hthere ▸ hunwrapped

theorem InRange.enabled {lock : Lock} (h : InRange g p) (hlock : p.space.lock? g = some lock) :
    lock.enabled = true := (h.threads hlock).reachable.enabled

theorem InRange.canHold (h : InRange g p) (hroom : p.space.HasRoom g) : p.space.CanHold g :=
  canHold_of_lock? hroom fun _ => h.threads

theorem InRange.turn (h : InRange g p) (hroom : p.space.HasRoom g) (hstep : Step g p p') :
    Turn g p p' := hstep.turn (h.canHold hroom)

theorem InRange.remains (h : InRange g p) : p.space.Remains := by
  induction h with
  | start => exact .of_history .empty
  | step p p' hp hroom hstep ih =>
    cases hp.turn hroom hstep with
    | lockKept hlockKept => exact hlockKept.remains ih
    | born hremains => exact hremains ih
    | moved lock lock' hsameSessions hsize => exact hsameSessions.remains hsize ih

theorem Turn.log_suffix (hturn : Turn g p p') (h : InRange g p) : p.log <:+ p'.log := by
  cases hturn with
  | lockKept _ _ hlog => rw [hlog]
  | born _ _ _ _ hlog => rw [hlog]
  | moved lock lock' _ _ hlock _ hmoved => exact hmoved.log_suffix (h.enabled hlock)

/-! ### Reading -/

/-- A guard of the graph owns a read hold: it is open, and the program has not given everything back
since it took it. -/
def Owns (p : Program) (number : Nat) : Prop :=
  (∃ epoch, ⟨number, caller, .read epoch⟩ ∈ p.guards) ∧
    .took caller .read (some number) ∈ Lock.since p.log caller

theorem Turn.owns_of (hturn : Turn g p p') (h : InRange g p)
    (hused : .took caller .read (some number) ∈ p.log) (howns : p'.Owns number) : p.Owns number := by
  cases hturn with
  | lockKept _ hguards hlog => rwa [Owns, hguards, hlog] at howns
  | born _ _ _ hguards hlog => rwa [Owns, hguards, hlog] at howns
  | moved lock lock' _ _ hlock _ hmoved => exact hmoved.owns_of (h.enabled hlock) hused howns

theorem InRange.reads (h : InRange g p) (hbalanced : Lock.Balanced p.log)
    (hfew : Lock.FewRestarts p.log) (howns : p.Owns number) : p.space.Reads g := by
  rcases h.lock_cases with ⟨_, hguards, _⟩ | ⟨lock, hlock, hunwrapped⟩
  · obtain ⟨⟨epoch, hopen⟩, _⟩ := howns
    rw [hguards] at hopen
    cases hopen
  · exact ⟨lock, hlock, hunwrapped.readHolds_ne_zero hbalanced hfew howns⟩

theorem InRange.reading (h : InRange g p) (hreads : p.space.Reads g)
    (hwrites : ¬p.space.Writes g) : p.space.Reading g := by
  obtain ⟨lock, hlock, hreads⟩ := hreads
  have henabled : lock.enabled = true := h.enabled hlock
  obtain ⟨shared, hshared, rfl⟩ := Option.map_eq_some_iff.mp hlock
  exact ⟨shared, hshared, henabled, hreads, fun hwriter => hwrites ⟨_, hlock, hwriter⟩⟩

/-- A program becomes the writer by a write hold that it takes, and only where it does not read. -/
theorem Turn.writes_cases (hturn : Turn g p p') (h : InRange g p) (hwrites : p'.space.Writes g) :
    p.space.Writes g ∨
      ¬p.space.Reads g ∧ ∃ guard, p'.log = .took caller .write guard :: p.log := by
  obtain ⟨lock', hlock', hwriter⟩ := hwrites
  cases hturn with
  | lockKept hlockKept =>
    rw [hlockKept.lock] at hlock'
    exact .inl ⟨lock', hlock', hwriter⟩
  | born _ _ hfree =>
    rw [hfree, Option.some.injEq] at hlock'
    subst hlock'
    cases hwriter
  | moved lock after _ _ hlock hafter hmoved =>
    rw [hlock', Option.some.injEq] at hafter
    subst hafter
    rcases hmoved.writer_cases (h.enabled hlock) hwriter with hbefore | ⟨hfree, htook⟩
    · exact .inl ⟨lock, hlock, hbefore⟩
    · refine .inr ⟨?_, htook⟩
      rintro ⟨lock'', hthere, hreads⟩
      rw [hlock, Option.some.injEq] at hthere
      subst hthere
      exact hreads (hfree.readHolds_eq caller)

theorem Turn.storeKept (hturn : Turn g p p') (h : InRange g p) (hreading : p.space.Reading g) :
    StoreKept g p.space p'.space := by
  cases hturn with
  | lockKept hlockKept => exact hlockKept.storeKept h.remains hreading
  | born _ hbefore =>
    obtain ⟨shared, hshared, _⟩ := hreading
    rw [lock?, hshared] at hbefore
    cases hbefore
  | moved lock lock' hsameSessions => exact .of_sameSessions hsameSessions

end Program

end PropertyGraph

import PropertyGraph.Proofs.Lock.Exclusion

/-!
# Who waits for a lock

A thread parks only where it cannot be granted what it asks for, and it stays parked only as long as that is
so. Granting a hold lets nobody go on. Of what is given back, whatever could let a parked thread go
on wakes them all: the last read hold of a thread, all its read holds together, and the last write
hold.
-/

namespace PropertyGraph.Lock

variable {l l' : Lock} {me t : ThreadId} {mode wanted : Mode}

theorem exists_writer_of_grants_read (h : l.grants t .read = false) :
    ∃ w, w ≠ t ∧ l.writer = some w := by
  by_contra hnone
  refine Bool.eq_false_iff.mp h (mayRead_iff.mpr fun w hw => ?_)
  by_contra hne
  exact hnone ⟨w, hne, hw⟩

theorem exists_holder_of_grants_write (h : l.grants t .write = false) :
    (∃ w, l.writer = some w) ∨ ∃ r, r ∈ l.readers := by
  by_contra hnone
  obtain ⟨hwriter, hreads⟩ := not_or.mp hnone
  refine Bool.eq_false_iff.mp h (mayWrite_iff.mpr ⟨?_, fun r => ?_⟩)
  · exact Option.eq_none_iff_forall_ne_some.mpr fun w hw => hwriter ⟨w, hw⟩
  · exact Std.ExtHashMap.getElem?_eq_none fun hr => hreads ⟨r, hr⟩

/-! ### What lets a thread go on -/

theorem grants_mono (hwriter : l'.writer = l.writer)
    (hreaders : ∀ r : ThreadId, l'.readers[r]? = none → l.readers[r]? = none)
    (h : l'.grants t wanted = true) : l.grants t wanted = true := by
  cases wanted with
  | read =>
    refine mayRead_iff.mpr fun w hw => ?_
    rw [← hwriter] at hw
    exact mayRead_iff.mp h w hw
  | write =>
    obtain ⟨hnone, hfree⟩ := mayWrite_iff.mp h
    exact mayWrite_iff.mpr ⟨by rw [← hwriter, hnone], fun r => hreaders r (hfree r)⟩

theorem none_of_insert {readers : Std.ExtHashMap ThreadId UInt32} {holds : UInt32}
    (h : (readers.insert me holds)[t]? = none) : readers[t]? = none := by
  rw [Std.ExtHashMap.getElem?_insert] at h
  split at h
  · cases h
  · exact h

theorem Grants.grants_of_grants (h : l.Grants me mode l') (hafter : l'.grants t wanted = true) :
    l.grants t wanted = true := by
  cases h with
  | read hmay =>
    exact grants_mono (by rfl) (fun r hnone => none_of_insert hnone) hafter
  | again hwriter =>
    exact grants_mono (by rfl) (fun r hnone => hnone) hafter
  | write hmay =>
    cases wanted with
    | read =>
      refine mayRead_iff.mpr fun w hw => ?_
      rw [(mayWrite_iff.mp hmay).writer_eq] at hw
      cases hw
    | write => exact hmay

/-- What is given back without waking leaves the writer and every reader, so it lets nobody go on. -/
theorem Returns.leaves_of_quiet {r : Release} (h : l.Returns me r) :
    r.wakes = false → r.lock.writer = l.writer ∧
      ∀ t : ThreadId, r.lock.readers[t]? = none → l.readers[t]? = none := by
  cases h with
  | nothing => exact fun _ => ⟨rfl, fun t hnone => hnone⟩
  | read =>
    unfold dropReadHold
    split
    · exact fun _ => ⟨rfl, fun t hnone => hnone⟩
    · split
      · exact fun _ => ⟨rfl, fun t hnone => none_of_insert hnone⟩
      · exact nofun
  | allReads =>
    unfold leaveAllReads
    split
    · exact fun _ => ⟨rfl, fun t hnone => hnone⟩
    · intro hquiet
      refine ⟨rfl, fun t hnone => ?_⟩
      by_cases ht : t = me
      · rw [ht]
        refine Std.ExtHashMap.getElem?_eq_none fun hreads => ?_
        rw [← Std.ExtHashMap.contains_iff_mem] at hreads
        exact Bool.eq_false_iff.mp hquiet hreads
      · change (l.readers.erase me)[t]? = none at hnone
        rw [Std.ExtHashMap.getElem?_erase, if_neg (by simpa using Ne.symm ht)] at hnone
        exact hnone
  | write =>
    unfold leaveWrite
    split
    · exact fun _ => ⟨rfl, fun t hnone => hnone⟩
    · split
      · exact nofun
      · exact fun _ => ⟨rfl, fun t hnone => hnone⟩

/-! ### Parked threads -/

namespace Threads

variable {x x' : Threads} {p : ThreadId × Mode}

/-- No thread is parked that could go on. -/
def Waits (x : Threads) : Prop := ∀ p ∈ x.monitor.parked, x.lock.grants p.1 p.2 = false

theorem leave_of_wakes {m : Monitor} {release : Lock → Release}
    (h : (release m.lock).wakes = true) :
    (m.leave release).parked = [] ∧ (m.leave release).woken = m.woken ++ m.parked := by
  unfold Monitor.leave
  dsimp only
  rw [if_pos h]
  exact ⟨rfl, rfl⟩

theorem leave_of_quiet {m : Monitor} {release : Lock → Release}
    (h : (release m.lock).wakes = false) : (m.leave release).parked = m.parked := by
  unfold Monitor.leave
  dsimp only
  rw [if_neg (by simp [h])]

theorem grants_of_leave {release : Lock → Release}
    (hreturns : x.lock.Returns me (release x.lock)) (hquiet : (release x.lock).wakes = false)
    (hmonitor : x'.monitor = x.monitor.leave release) (hafter : x'.lock.grants t wanted = true) :
    x.lock.grants t wanted = true := by
  rw [lock_of_monitor_eq hmonitor] at hafter
  obtain ⟨hwriter, hreaders⟩ := hreturns.leaves_of_quiet hquiet
  exact grants_mono hwriter hreaders hafter

theorem Waits.of_leave {release : Lock → Release} (h : x.Waits)
    (hreturns : x.lock.Returns me (release x.lock))
    (hmonitor : x'.monitor = x.monitor.leave release) : x'.Waits := by
  intro p hp
  rw [hmonitor] at hp
  cases hwakes : (release x.lock).wakes with
  | true =>
    rw [(leave_of_wakes hwakes).1] at hp
    cases hp
  | false =>
    rw [leave_of_quiet hwakes] at hp
    refine Bool.eq_false_iff.mpr fun hafter => ?_
    exact Bool.eq_false_iff.mp (h p hp) (grants_of_leave hreturns hwakes hmonitor hafter)

theorem Step.waits (hstep : Step x x') (henabled : x.lock.enabled = true)
    (h : x.Waits) : x'.Waits := by
  cases hstep.turn henabled with
  | idle hlock _ _ hparked =>
    intro p hp
    rw [hlock]
    rcases hparked p hp with hp | hrefused
    · exact h p hp
    · exact hrefused
  | took me mode guard monitor hnew hgrants hparked htake =>
    subst htake
    intro p hp
    change p ∈ monitor.parked at hp
    rw [hparked] at hp
    refine Bool.eq_false_iff.mpr fun hafter => ?_
    exact Bool.eq_false_iff.mp (h p hp) (hgrants.grants_of_grants hafter)
  | gave me what hmonitor => exact h.of_leave (what.returns _ me) hmonitor
  | dropped g hopen hmonitor => exact h.of_leave (returns_leaveHold _ _ _) hmonitor

theorem Reachable.waits (h : Reachable x) : x.Waits := by
  induction h with
  | start => exact fun p hp => absurd hp List.not_mem_nil
  | step x x' hx hstep ih => exact hstep.waits hx.enabled ih

/-- A step after which a parked thread could go on has woken all that were parked: nobody who could
go on is parked after it, so this one is not parked any more. -/
theorem Step.wakes_of_grants (hstep : Step x x') (hx : Reachable x) (hp : p ∈ x.monitor.parked)
    (hafter : x'.lock.grants p.1 p.2 = true) :
    x'.monitor.parked = [] ∧ x'.monitor.woken = x.monitor.woken ++ x.monitor.parked := by
  have hbefore := Bool.eq_false_iff.mp (hx.waits p hp)
  have hleave : ∀ me release, x.lock.Returns me (release x.lock) →
      x'.monitor = x.monitor.leave release →
      x'.monitor.parked = [] ∧ x'.monitor.woken = x.monitor.woken ++ x.monitor.parked := by
    intro me release hreturns hmonitor
    have hwakes : (release x.lock).wakes = true := by
      by_contra hquiet
      refine hbefore (grants_of_leave hreturns ?_ hmonitor hafter)
      exact Bool.eq_false_iff.mpr hquiet
    rw [hmonitor]
    exact leave_of_wakes hwakes
  cases hstep.turn hx.enabled with
  | idle hlock =>
    rw [hlock] at hafter
    exact absurd hafter hbefore
  | took me mode guard monitor hnew hgrants hparked htake =>
    subst htake
    exact absurd (hgrants.grants_of_grants hafter) hbefore
  | gave me what hmonitor => exact hleave me _ (what.returns _ me) hmonitor
  | dropped g hopen hmonitor => exact hleave g.owner _ (returns_leaveHold _ _ _) hmonitor

theorem Reachable.no_lost_wakeup (h : Reachable x) :
    (∀ t, (t, .read) ∈ x.monitor.parked → ∃ w, w ≠ t ∧ x.lock.writer = some w) ∧
    (∀ t, (t, .write) ∈ x.monitor.parked →
      (∃ w, x.lock.writer = some w) ∨ ∃ r, r ∈ x.lock.readers) ∧
    ∀ x', Step x x' → ∀ p ∈ x.monitor.parked, x'.lock.grants p.1 p.2 = true →
      x'.monitor.parked = [] ∧ x'.monitor.woken = x.monitor.woken ++ x.monitor.parked := by
  refine ⟨fun t ht => ?_, fun t ht => ?_, fun x' hstep p hp hafter => ?_⟩
  · exact exists_writer_of_grants_read (h.waits _ ht)
  · exact exists_holder_of_grants_write (h.waits _ ht)
  · exact hstep.wakes_of_grants h hp hafter

def queued : Threads :=
  { manyReads 1 with monitor := { (manyReads 1).monitor with parked := [(2, .write)] } }

theorem enter_write_manyReads_one :
    (manyReads 1).monitor.enter 2 .write = (.parked, queued.monitor) := by
  have hreader : (manyReads 1).lock.readers[1]? = some 1 := readers_manyReads 0
  have hreads : (manyReads 1).lock.readHolds 2 = 0 := by
    change (({} : Lock).addReadHold 1).readHolds 2 = 0
    rw [readHolds_addReadHold, readHolds_eq, Std.ExtHashMap.getElem?_empty]
    rfl
  have hwaits : (manyReads 1).monitor.lock.enter 2 .write = .waits := by
    change (manyReads 1).lock.enterWrite 2 = .waits
    unfold enterWrite
    rw [if_neg (by decide), if_neg nofun, if_neg (by rw [hreads]; decide), if_neg ?_]
    intro hmay
    rw [(mayWrite_iff.mp hmay).readers_eq] at hreader
    cases hreader
  unfold Monitor.enter
  rw [hwaits]
  rfl

theorem no_lost_wakeup_queued :
    ((∃ w, queued.lock.writer = some w) ∨ ∃ r, r ∈ queued.lock.readers) ∧
    ∀ x', Step queued x' → x'.lock.grants 2 .write = true → x'.monitor.parked = [] := by
  have hqueued : Reachable queued :=
    .step _ _ (reachable_manyReads 1) (.parked 2 .write _ enter_write_manyReads_one)
  obtain ⟨_, hwrite, hwakes⟩ := hqueued.no_lost_wakeup
  have hparked : (2, Mode.write) ∈ queued.monitor.parked := List.mem_singleton.mpr rfl
  exact ⟨hwrite 2 hparked, fun x' hstep hafter => (hwakes x' hstep _ hparked hafter).1⟩

end Threads

end PropertyGraph.Lock

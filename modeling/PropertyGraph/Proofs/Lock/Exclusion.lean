import PropertyGraph.Proofs.Lock.Threads

/-!
# Who holds a lock

While a thread writes no other thread holds anything. That is an invariant of the lock alone: it is
kept by every way in which a hold that fits is granted and by every way in which one is given back,
whichever thread calls, also one that gives back what it does not have. A hold that does not fit
breaks it: its thread reads or writes, and the count of its holds is 0.
-/

namespace PropertyGraph.Lock

variable {l l' : Lock} {me t : ThreadId} {mode : Mode} {epoch : UInt64}

/-! ### Granting -/

theorem mayRead_iff : l.mayRead me = true ↔ ∀ w, l.writer = some w → w = me := by
  unfold mayRead
  cases l.writer <;> simp

structure Free (l : Lock) : Prop where
  writer_eq : l.writer = none
  readers_eq (t : ThreadId) : l.readers[t]? = none

theorem mayWrite_iff : l.mayWrite = true ↔ l.Free := by
  unfold mayWrite
  rw [Bool.and_eq_true, Option.isNone_iff_eq_none, Std.ExtHashMap.isEmpty_iff]
  constructor
  · intro ⟨hwriter, hempty⟩
    exact ⟨hwriter, fun t => by rw [hempty, Std.ExtHashMap.getElem?_empty]⟩
  · intro h
    refine ⟨h.writer_eq, Std.ExtHashMap.ext_getElem? fun t => ?_⟩
    rw [h.readers_eq, Std.ExtHashMap.getElem?_empty]

/-- A hold that is granted, and what it makes of the lock. -/
inductive Grants (l : Lock) (me : ThreadId) : Mode → Lock → Prop where
  | read (hmay : l.mayRead me = true) : Grants l me .read (l.addReadHold me)
  | again (hwriter : l.writer = some me) :
    Grants l me .write { l with writeHolds := l.writeHolds + 1 }
  | write (hmay : l.mayWrite = true) : Grants l me .write (l.setWriter me)

theorem grants_of_enter (henabled : l.enabled = true)
    (h : l.enter me mode = .granted epoch l') : epoch = l.epoch me ∧ l.Grants me mode l' := by
  cases mode with
  | read =>
    simp only [enter, enterRead] at h
    rw [if_neg (by simp [henabled])] at h
    split at h
    · next hmay =>
      cases h
      exact ⟨rfl, .read hmay⟩
    · cases h
  | write =>
    simp only [enter, enterWrite] at h
    rw [if_neg (by simp [henabled])] at h
    split at h
    · next hwriter =>
      cases h
      exact ⟨rfl, .again hwriter⟩
    · split at h
      · cases h
      · split at h
        · next hmay =>
          cases h
          exact ⟨rfl, .write hmay⟩
        · cases h

theorem enter_of_mayRead (henabled : l.enabled = true) (hmay : l.mayRead me = true) :
    l.enter me .read = .granted (l.epoch me) (l.addReadHold me) := by
  simp [enter, enterRead, henabled, hmay]

theorem grants_grant (h : l.grants me mode = true) : l.Grants me mode (l.grant me mode) := by
  cases mode with
  | read => exact .read h
  | write => exact .write h

theorem grants_eq_false_of_enter (h : l.enter me mode = .waits) : l.grants me mode = false := by
  cases mode with
  | read =>
    simp only [enter, enterRead] at h
    split at h
    · cases h
    · split at h
      · cases h
      · next hmay => exact Bool.eq_false_of_not_eq_true hmay
  | write =>
    simp only [enter, enterWrite] at h
    split at h
    · cases h
    · split at h
      · cases h
      · split at h
        · cases h
        · split at h
          · cases h
          · next hmay => exact Bool.eq_false_of_not_eq_true hmay

theorem Grants.enabled_eq (h : l.Grants me mode l') : l'.enabled = l.enabled := by
  cases h <;> rfl

theorem Grants.epoch_eq (h : l.Grants me mode l') (t : ThreadId) : l'.epoch t = l.epoch t := by
  cases h <;> rfl

theorem Grants.readHolds_eq (h : l.Grants me mode l') :
    l'.readHolds t = l.readHolds t + if t = me ∧ mode = .read then 1 else 0 := by
  cases h with
  | read hmay =>
    rw [readHolds_addReadHold]
    simp
  | again hwriter => simp [readHolds]
  | write hmay => simp [setWriter, readHolds]

/-! ### Giving back -/

/-- Something given back by a thread, and what it makes of the lock. -/
inductive Returns (l : Lock) (me : ThreadId) : Release → Prop where
  | nothing : Returns l me { lock := l, wakes := false }
  | read : Returns l me (l.dropReadHold me)
  | allReads : Returns l me (l.leaveAllReads me)
  | write : Returns l me (l.leaveWrite me)

theorem Unlock.returns (what : Unlock) (l : Lock) (me : ThreadId) :
    l.Returns me (what.release me l) := by
  cases what with
  | read =>
    change l.Returns me (l.leaveRead me)
    unfold leaveRead
    split
    · exact .read
    · exact .nothing
  | allReads => exact .allReads
  | write => exact .write

theorem returns_leaveHold (l : Lock) (me : ThreadId) (hold : Hold) :
    l.Returns me (l.leaveHold me hold) := by
  cases hold with
  | read epoch =>
    change l.Returns me (l.leaveReadOf me epoch)
    unfold leaveReadOf
    split
    · exact .read
    · exact .nothing
  | write => exact .write

theorem Returns.enabled_eq {r : Release} (h : l.Returns me r) : r.lock.enabled = l.enabled := by
  cases h with
  | nothing => rfl
  | read =>
    obtain ⟨readers, h⟩ := dropReadHold_eq l me
    rw [h]
  | allReads =>
    unfold leaveAllReads
    split <;> rfl
  | write =>
    obtain ⟨writer, writeHolds, h⟩ := leaveWrite_eq l me
    rw [h]

/-! ### What a step does -/

namespace Threads

variable {x x' : Threads}

/-- What a step comes to: the lock is what it was and at most a thread has parked, a hold has been
granted, a thread has given something back, or a guard has been dropped. -/
inductive Turn (x x' : Threads) : Prop where
  | idle (hlock : x'.lock = x.lock) (hguards : x'.guards = x.guards) (hlog : x'.log = x.log)
    (hparked : ∀ p ∈ x'.monitor.parked, p ∈ x.monitor.parked ∨ x.lock.grants p.1 p.2 = false)
  | took (me : ThreadId) (mode : Mode) (guard : Option Nat) (monitor : Monitor)
    (hnew : x.Unused guard)
    (hgrants : x.lock.Grants me mode monitor.lock)
    (hparked : monitor.parked = x.monitor.parked)
    (htake : x' = x.take monitor me mode guard (x.lock.epoch me))
  | gave (me : ThreadId) (what : Unlock)
    (hmonitor : x'.monitor = x.monitor.leave (what.release me)) (hguards : x'.guards = x.guards)
    (hlog : x'.log = .gave me what :: x.log)
  | dropped (g : OpenGuard) (hopen : g ∈ x.guards)
    (hmonitor : x'.monitor = x.monitor.leave (·.leaveHold g.owner g.hold))
    (hguards : x'.guards = x.guards.erase g) (hlog : x'.log = .dropped g.owner g.number :: x.log)

theorem Step.turn (h : Step x x') (henabled : x.lock.enabled = true) : Turn x x' := by
  cases h with
  | granted me mode guard epoch monitor hnew hcall =>
    unfold Monitor.enter at hcall
    split at hcall <;> cases hcall
    next lock henter =>
      obtain ⟨rfl, hgrants⟩ := grants_of_enter henabled henter
      exact .took me mode guard { x.monitor with lock } hnew hgrants rfl rfl
  | refused me mode fault monitor hcall =>
    unfold Monitor.enter at hcall
    split at hcall <;> cases hcall
    exact .idle rfl rfl rfl fun p hp => .inl hp
  | parked me mode monitor hcall =>
    unfold Monitor.enter at hcall
    split at hcall <;> cases hcall
    next hwaits =>
      refine .idle rfl rfl rfl fun p hp => ?_
      rcases List.mem_append.mp hp with hp | hp
      · exact .inl hp
      · rw [List.mem_singleton.mp hp]
        exact .inr (grants_eq_false_of_enter hwaits)
  | gave me what => exact .gave me what rfl rfl rfl
  | dropped g hopen => exact .dropped g hopen rfl rfl rfl
  | reordered woken horder => exact .idle rfl rfl rfl fun p hp => .inl hp
  | resumed me mode guard epoch monitor rest hnew hfirst hturn =>
    unfold Monitor.retry at hturn
    simp only [hfirst] at hturn
    split at hturn <;> cases hturn
    next hgrants =>
      exact .took me mode guard { x.monitor with lock := x.lock.grant me mode, woken := rest } hnew
        (grants_grant hgrants) rfl rfl
  | reparked monitor hturn =>
    unfold Monitor.retry at hturn
    split at hturn
    · cases hturn
      exact .idle rfl rfl rfl fun p hp => .inl hp
    · split at hturn <;> cases hturn
      next hrefuses =>
        refine .idle rfl rfl rfl fun p hp => ?_
        rcases List.mem_append.mp hp with hp | hp
        · exact .inl hp
        · rw [List.mem_singleton.mp hp]
          exact .inr (Bool.eq_false_of_not_eq_true hrefuses)

theorem lock_leave (m : Monitor) (release : Lock → Release) :
    (m.leave release).lock = (release m.lock).lock := by
  unfold Monitor.leave
  dsimp only
  split <;> rfl

theorem lock_of_monitor_eq {release : Lock → Release} (h : x'.monitor = x.monitor.leave release) :
    x'.lock = (release x.lock).lock := by
  rw [lock, h, lock_leave]
  rfl

/-- What keeps when a hold is granted, and when something is given back, keeps under a step. -/
theorem Step.lock_induction {P : Lock → Prop} (h : Step x x') (henabled : x.lock.enabled = true)
    (hx : P x.lock) (hgrants : ∀ me mode l, x.lock.Grants me mode l → P l)
    (hreturns : ∀ me r, x.lock.Returns me r → P r.lock) : P x'.lock := by
  cases h.turn henabled with
  | idle hlock =>
    rw [hlock]
    exact hx
  | took me mode guard monitor hnew hgranted hparked htake =>
    rw [htake]
    exact hgrants me mode _ hgranted
  | gave me what hmonitor =>
    rw [lock_of_monitor_eq hmonitor]
    exact hreturns me _ (what.returns _ me)
  | dropped g hopen hmonitor =>
    rw [lock_of_monitor_eq hmonitor]
    exact hreturns g.owner _ (returns_leaveHold _ _ _)

theorem Reachable.enabled (h : Reachable x) : x.lock.enabled = true := by
  induction h with
  | start => rfl
  | step x x' _ hstep ih =>
    refine hstep.lock_induction (P := (·.enabled = true)) ih ih
      (fun me mode l hgrants => ?_) fun me r hreturns => ?_
    · rw [hgrants.enabled_eq, ih]
    · rw [hreturns.enabled_eq, ih]

theorem step_of_enter {lock : Lock} {guard : Option Nat} (hnew : x.Unused guard)
    (henter : x.lock.enter me mode = .granted epoch lock) :
    Step x (x.take { x.monitor with lock } me mode guard epoch) := by
  refine .granted me mode guard epoch _ hnew ?_
  unfold Monitor.enter
  rw [show x.monitor.lock.enter me mode = _ from henter]

theorem Reachable.read (h : Reachable x) (me : ThreadId) (hmay : x.lock.mayRead me = true)
    (guard : Option Nat) (hnew : x.Unused guard) :
    Reachable (x.take { x.monitor with lock := x.lock.addReadHold me } me .read guard
      (x.lock.epoch me)) :=
  .step x _ h (step_of_enter hnew (enter_of_mayRead h.enabled hmay))

end Threads

/-! ### Exclusion -/

/-- A thread that writes is alone, and what is recorded are holds. -/
structure Exclusive (l : Lock) : Prop where
  writer_alone : ∀ w, l.writer = some w →
    1 ≤ l.writeHolds ∧ ∀ t : ThreadId, t ≠ w → l.readers[t]? = none
  writeHolds_eq_zero : l.writer = none → l.writeHolds = 0
  one_le_readers : ∀ (t : ThreadId) n, l.readers[t]? = some n → 1 ≤ n

theorem one_le_iff {n : UInt32} : 1 ≤ n ↔ n ≠ 0 := by
  rw [UInt32.le_iff_toNat_le, ne_eq, ← UInt32.toNat_inj]
  exact Nat.one_le_iff_ne_zero

theorem toNat_add_one {n : UInt32} (h : n + 1 ≠ 0) : (n + 1).toNat = n.toNat + 1 := by
  have hlt := n.toNat_lt
  have hzero : (n + 1).toNat ≠ 0 := fun heq => h (UInt32.toNat_inj.mp heq)
  rw [UInt32.toNat_add] at hzero ⊢
  simp only [UInt32.toNat_one] at hzero ⊢
  omega

namespace Exclusive

theorem readHolds_eq_zero_iff (h : l.Exclusive) : l.readHolds t = 0 ↔ l.readers[t]? = none := by
  rw [readHolds_eq]
  cases hn : l.readers[t]? with
  | none => simp
  | some n =>
    have hpos : n ≠ 0 := one_le_iff.mp (h.one_le_readers t n hn)
    simp [hpos]

theorem free : ({} : Lock).Exclusive := by
  refine ⟨fun w hw => ?_, fun _ => rfl, fun t n hn => ?_⟩
  · cases hw
  · rw [Std.ExtHashMap.getElem?_empty] at hn
    cases hn

theorem addReadHold (h : l.Exclusive) (hmay : l.mayRead me = true) (hroom : l.HasRoom me .read) :
    (l.addReadHold me).Exclusive := by
  have hreaders : ∀ t, (l.addReadHold me).readers[t]? =
      if me = t then some (l.readHolds me + 1) else l.readers[t]? := by
    intro t
    change (l.readers.insert me _)[t]? = _
    rw [Std.ExtHashMap.getElem?_insert]
    simp
  refine ⟨fun w hw => ?_, h.writeHolds_eq_zero, fun t n hn => ?_⟩
  · obtain ⟨hpos, halone⟩ := h.writer_alone w hw
    refine ⟨hpos, fun t ht => ?_⟩
    have hme : w = me := mayRead_iff.mp hmay w hw
    rw [hreaders, if_neg (by rw [← hme]; exact Ne.symm ht)]
    exact halone t ht
  · rw [hreaders] at hn
    split at hn
    · cases hn
      exact one_le_iff.mpr hroom
    · exact h.one_le_readers t n hn

theorem grants_iff (h : l.Exclusive) (hgrants : l.Grants me mode l') :
    l'.Exclusive ↔ l.HasRoom me mode := by
  cases hgrants with
  | read hmay =>
    refine ⟨fun hafter hfull => ?_, h.addReadHold hmay⟩
    have hzero : (l.addReadHold me).readHolds me = 0 := by
      rw [readHolds_addReadHold, if_pos rfl]
      exact hfull
    have hnone := hafter.readHolds_eq_zero_iff.mp hzero
    change (l.readers.insert me _)[me]? = none at hnone
    rw [Std.ExtHashMap.getElem?_insert_self] at hnone
    cases hnone
  | again hwriter =>
    refine ⟨fun hafter _ => one_le_iff.mp (hafter.writer_alone me hwriter).1, fun hroom => ?_⟩
    refine ⟨fun w hw => ⟨one_le_iff.mpr (hroom hwriter), (h.writer_alone w hw).2⟩, fun hnone => ?_,
      h.one_le_readers⟩
    rw [hwriter] at hnone
    cases hnone
  | write hmay =>
    obtain ⟨hfree, hreaders⟩ := mayWrite_iff.mp hmay
    refine ⟨fun _ hwriter => ?_, fun _ => ?_⟩
    · rw [hfree] at hwriter
      cases hwriter
    · exact ⟨fun _ _ => ⟨UInt32.le_refl 1, fun t _ => hreaders t⟩, nofun, h.one_le_readers⟩

theorem of_readers {readers : Std.ExtHashMap ThreadId UInt32} (h : l.Exclusive)
    (hreaders : ∀ (t : ThreadId) n, readers[t]? = some n → 1 ≤ n ∧ l.readers[t]? ≠ none) :
    Exclusive { l with readers } where
  writer_alone := by
    intro w hw
    obtain ⟨hpos, halone⟩ := h.writer_alone w hw
    refine ⟨hpos, fun t ht => ?_⟩
    by_contra hsome
    obtain ⟨n, hn⟩ := Option.ne_none_iff_exists'.mp hsome
    exact (hreaders t n hn).2 (halone t ht)
  writeHolds_eq_zero := h.writeHolds_eq_zero
  one_le_readers := fun t n hn => (hreaders t n hn).1

theorem erase (h : l.Exclusive) : Exclusive { l with readers := l.readers.erase me } := by
  refine h.of_readers fun t n hn => ?_
  rw [Std.ExtHashMap.getElem?_erase] at hn
  split at hn
  · cases hn
  · exact ⟨h.one_le_readers t n hn, by rw [hn]; exact Option.some_ne_none n⟩

theorem of_returns {r : Release} (h : l.Exclusive) (hreturns : l.Returns me r) :
    r.lock.Exclusive := by
  cases hreturns with
  | nothing => exact h
  | read =>
    unfold dropReadHold
    split
    · exact h
    · next holds hsome =>
      split
      · next hmore =>
        refine h.of_readers fun t n hn => ?_
        rw [Std.ExtHashMap.getElem?_insert] at hn
        split at hn
        · next heq =>
          cases hn
          rw [← beq_iff_eq.mp heq, hsome]
          refine ⟨one_le_iff.mpr fun hzero => ?_, Option.some_ne_none _⟩
          have hone : holds = 1 := by simpa using UInt32.sub_eq_iff_eq_add.mp hzero
          exact absurd (hone ▸ hmore) (UInt32.lt_irrefl 1)
        · exact ⟨h.one_le_readers t n hn, by rw [hn]; exact Option.some_ne_none n⟩
      · exact h.erase
  | allReads =>
    unfold leaveAllReads
    split
    · exact h
    · have herase : Exclusive { l with readers := l.readers.erase me } := h.erase
      exact ⟨herase.writer_alone, herase.writeHolds_eq_zero, herase.one_le_readers⟩
  | write =>
    unfold leaveWrite
    split
    · exact h
    · next hwriter =>
      split
      · exact ⟨nofun, fun _ => rfl, h.one_le_readers⟩
      · next hmore =>
        refine ⟨fun w hw => ⟨one_le_iff.mpr hmore, (h.writer_alone w hw).2⟩, fun hnone => ?_,
          h.one_le_readers⟩
        change l.writer = none at hnone
        simp [hnone] at hwriter

theorem dropReadHold_addReadHold (h : l.Exclusive) (hroom : l.HasRoom me .read) :
    ((l.addReadHold me).dropReadHold me).lock = l := by
  have hself : (l.addReadHold me).readers[me]? = some (l.readHolds me + 1) :=
    Std.ExtHashMap.getElem?_insert_self
  have hsame : ∀ readers : Std.ExtHashMap ThreadId UInt32,
      (∀ t : ThreadId, readers[t]? = l.readers[t]?) → { l.addReadHold me with readers } = l := by
    intro readers hreaders
    rw [Std.ExtHashMap.ext_getElem? hreaders]
    rfl
  unfold dropReadHold
  rw [hself]
  simp only
  split
  · next hmore =>
    refine hsame _ fun t => ?_
    change ((l.readers.insert me _).insert me _)[t]? = _
    rw [Std.ExtHashMap.getElem?_insert, Std.ExtHashMap.getElem?_insert]
    by_cases ht : me = t
    · subst ht
      cases hholds : l.readers[me]? with
      | none =>
        rw [h.readHolds_eq_zero_iff.mpr hholds] at hmore
        exact absurd hmore (by decide)
      | some holds => simp [readHolds_eq, hholds]
    · simp [ht]
  · next hlast =>
    have hnone : l.readers[me]? = none := by
      refine h.readHolds_eq_zero_iff.mp ?_
      by_contra hsome
      have hpos : 1 ≤ l.readHolds me := one_le_iff.mpr hsome
      rw [UInt32.le_iff_toNat_le] at hpos
      refine hlast (UInt32.lt_iff_toNat_lt.mpr ?_)
      rw [toNat_add_one hroom]
      exact Nat.lt_succ_of_le hpos
    refine hsame _ fun t => ?_
    change ((l.readers.insert me _).erase me)[t]? = _
    rw [Std.ExtHashMap.getElem?_erase, Std.ExtHashMap.getElem?_insert]
    by_cases ht : me = t
    · subst ht
      simp [hnone]
    · simp [ht]

theorem leaveHold_of_enter (h : l.Exclusive) (hroom : l.HasRoom me mode)
    (hgranted : l.enter me mode = .granted epoch l') :
    (l'.leaveHold me (mode.hold epoch)).lock = l := by
  cases henabled : l.enabled with
  | false =>
    have hsame : l' = l := by
      cases mode <;> simp [enter, enterRead, enterWrite, henabled] at hgranted <;> exact hgranted.2.symm
    subst hsame
    cases mode <;> simp [Mode.hold, leaveHold, leaveReadOf, leaveWrite, henabled]
  | true =>
    obtain ⟨rfl, hgrants⟩ := grants_of_enter henabled hgranted
    cases hgrants with
    | read hmay =>
      have henabled' : (l.addReadHold me).enabled = true := henabled
      have hepoch : (l.addReadHold me).epoch me = l.epoch me := rfl
      change ((l.addReadHold me).leaveReadOf me (l.epoch me)).lock = l
      rw [leaveReadOf_eq henabled', if_pos hepoch.symm]
      exact h.dropReadHold_addReadHold hroom
    | again hwriter =>
      obtain ⟨hpos, _⟩ := h.writer_alone me hwriter
      have hmore : ¬l.writeHolds = 0 := one_le_iff.mp hpos
      change (leaveWrite { l with writeHolds := l.writeHolds + 1 } me).lock = l
      simp only [leaveWrite, henabled, hwriter, UInt32.add_sub_cancel, hmore, Bool.not_true,
        Bool.false_or, bne_self_eq_false, Bool.false_eq_true, if_false]
      rw [← henabled, ← hwriter]
    | write hmay =>
      obtain ⟨hnone, _⟩ := mayWrite_iff.mp hmay
      have hlast : (1 : UInt32) - 1 = 0 := rfl
      change (leaveWrite (l.setWriter me) me).lock = l
      simp only [leaveWrite, setWriter, henabled, Bool.not_true, Bool.false_or, bne_self_eq_false,
        Bool.false_eq_true, if_false, hlast, if_true]
      rw [← henabled, ← hnone, ← h.writeHolds_eq_zero hnone]

end Exclusive

namespace Threads

variable {x x' : Threads}

theorem Fits.of_take {monitor : Monitor} {guard : Option Nat}
    (hroom : x.lock.HasRoom me mode) : Fits x (x.take monitor me mode guard epoch) := by
  intro me' mode' guard' hlog
  cases hlog
  exact hroom

theorem fits_of_log_eq (entry : LogEntry) (hlog : x'.log = entry :: x.log)
    (hentry : ∀ me mode guard, entry ≠ .took me mode guard) : Fits x x' := by
  intro me mode guard htook
  rw [hlog] at htook
  exact absurd (List.cons.inj htook).1 (hentry me mode guard)

/-- A step keeps the exclusion exactly if the hold that it takes, if any, fits. -/
theorem Step.exclusive_iff (h : Step x x') (henabled : x.lock.enabled = true)
    (hexclusive : x.lock.Exclusive) : x'.lock.Exclusive ↔ Fits x x' := by
  cases h.turn henabled with
  | idle hlock hguards hlog =>
    refine iff_of_true (hlock ▸ hexclusive) fun me mode guard htook => ?_
    exact absurd (hlog.symm.trans htook).symm (List.cons_ne_self _ _)
  | took me mode guard monitor hnew hgrants hparked htake =>
    subst htake
    exact (hexclusive.grants_iff hgrants).trans ⟨Fits.of_take, fun hfits => hfits me mode guard rfl⟩
  | gave me what hmonitor hguards hlog =>
    refine iff_of_true ?_ (fits_of_log_eq _ hlog nofun)
    rw [lock_of_monitor_eq hmonitor]
    exact hexclusive.of_returns (what.returns _ me)
  | dropped g hopen hmonitor hguards hlog =>
    refine iff_of_true ?_ (fits_of_log_eq _ hlog nofun)
    rw [lock_of_monitor_eq hmonitor]
    exact hexclusive.of_returns (returns_leaveHold _ _ _)

theorem Unwrapped.reachable (h : Unwrapped x) : Reachable x := by
  induction h with
  | start => exact .start
  | step x x' _ hstep _ ih => exact .step x x' ih hstep

theorem Unwrapped.exclusive (h : Unwrapped x) : x.lock.Exclusive := by
  induction h with
  | start => exact .free
  | step x x' hx hstep hfits ih => exact (hstep.exclusive_iff hx.reachable.enabled ih).mpr hfits

theorem Unwrapped.read (h : Unwrapped x) (me : ThreadId) (hmay : x.lock.mayRead me = true)
    (hroom : x.lock.HasRoom me .read) (guard : Option Nat) (hnew : x.Unused guard) :
    Unwrapped (x.take { x.monitor with lock := x.lock.addReadHold me } me .read guard
      (x.lock.epoch me)) :=
  .step x _ h (step_of_enter hnew (enter_of_mayRead h.reachable.enabled hmay)) (.of_take hroom)

theorem Unwrapped.write {lock : Lock} (h : Unwrapped x) (me : ThreadId) (guard : Option Nat)
    (hnew : x.Unused guard) (henter : x.lock.enter me .write = .granted epoch lock)
    (hroom : x.lock.HasRoom me .write) :
    Unwrapped (x.take { x.monitor with lock } me .write guard epoch) :=
  .step x _ h (step_of_enter hnew henter) (.of_take hroom)

end Threads

theorem free_empty : ({} : Lock).Free := ⟨rfl, fun _ => Std.ExtHashMap.getElem?_empty⟩

theorem Grants.writer_cases {w : ThreadId} (h : l.Grants me mode l') (hw : l'.writer = some w) :
    l.writer = some w ∨ l.Free ∧ w = me ∧ mode = .write := by
  cases h with
  | read => exact .inl hw
  | again => exact .inl hw
  | write hmay =>
    cases hw
    exact .inr ⟨mayWrite_iff.mp hmay, rfl, rfl⟩

theorem Grants.writer_of_write (h : l.Grants me .write l') :
    l'.writer = some me ∧ (l.writer = some me ∨ l.Free) := by
  cases h with
  | again hwriter => exact ⟨hwriter, .inl hwriter⟩
  | write hmay => exact ⟨rfl, .inr (mayWrite_iff.mp hmay)⟩

theorem Returns.writer_of {r : Release} {w : ThreadId} (h : l.Returns me r)
    (hw : r.lock.writer = some w) : l.writer = some w := by
  cases h with
  | nothing => exact hw
  | read =>
    obtain ⟨readers, heq⟩ := dropReadHold_eq l me
    rw [heq] at hw
    exact hw
  | allReads =>
    unfold leaveAllReads at hw
    split at hw <;> exact hw
  | write =>
    unfold leaveWrite at hw
    split at hw
    · exact hw
    · split at hw
      · cases hw
      · exact hw

theorem enter_of_writer (henabled : l.enabled = true) (hwriter : l.writer = some me) :
    l.enter me .write = .granted (l.epoch me) { l with writeHolds := l.writeHolds + 1 } := by
  simp [enter, enterWrite, henabled, hwriter]

theorem Free.readHolds_eq (h : l.Free) (t : ThreadId) : l.readHolds t = 0 := by
  rw [Lock.readHolds_eq, h.readers_eq]
  rfl

theorem Free.hasRoom (h : l.Free) (mode : Mode) : l.HasRoom me mode := by
  cases mode with
  | read =>
    change l.readHolds me + 1 ≠ 0
    rw [h.readHolds_eq]
    decide
  | write =>
    intro hwriter
    rw [h.writer_eq] at hwriter
    cases hwriter

theorem Free.enter_eq (h : l.Free) (henabled : l.enabled = true) :
    l.enter me .write = .granted (l.epoch me) (l.setWriter me) := by
  have hwriter : l.writer ≠ some me := by rw [h.writer_eq]; exact nofun
  simp [enter, enterWrite, henabled, hwriter, h.readHolds_eq, mayWrite_iff.mpr h]

/-- Who is recorded with no holds and does not write waits to write, as long as it is recorded. -/
theorem enter_of_recorded_zero (henabled : l.enabled = true) (hwriter : l.writer = none)
    (hzero : l.readers[me]? = some 0) : l.enter me .write = .waits := by
  have hmay : l.mayWrite = false := by
    refine Bool.eq_false_iff.mpr fun hmay => ?_
    rw [(mayWrite_iff.mp hmay).readers_eq] at hzero
    cases hzero
  simp [enter, enterWrite, henabled, hwriter, readHolds_eq, hzero, hmay]

theorem enter_of_readHolds_ne_zero (henabled : l.enabled = true) (hwriter : l.writer ≠ some me)
    (hreads : l.readHolds me ≠ 0) : l.enter me .write = .refused .readHeld := by
  simp [enter, enterWrite, henabled, hwriter, UInt32.pos_iff_ne_zero.mpr hreads]

theorem Exclusive.enter_of_reader (h : l.Exclusive) (henabled : l.enabled = true)
    (hwriter : l.writer ≠ some t) (hreads : t ∈ l.readers) :
    l.enter t .write = .refused .readHeld := by
  refine enter_of_readHolds_ne_zero henabled hwriter fun hzero => absurd hreads ?_
  simpa using h.readHolds_eq_zero_iff.mp hzero

namespace Threads

variable {x x' : Threads}

/-- What the lock promises those who write. -/
structure ExclusionHolds (x : Threads) : Prop where
  exclusive : x.lock.Exclusive
  /-- A write hold is taken by the writer, or where nobody holds anything. -/
  took_write : ∀ x' w guard, Step x x' → x'.log = .took w .write guard :: x.log →
    x'.lock.writer = some w ∧ (x.lock.writer = some w ∨ x.lock.Free)
  /-- A thread becomes the writer by a write hold that it takes. -/
  writer_cases : ∀ x' w, Step x x' → x'.lock.writer = some w → x.lock.writer = some w ∨
    x.lock.Free ∧ ∃ guard, x'.log = .took w .write guard :: x.log
  /-- A thread that only reads does not wait for itself. -/
  refuses : ∀ t, x.lock.writer ≠ some t → t ∈ x.lock.readers → ∃ fault : Fault,
    fault.kind = .concurrency ∧ x.monitor.enter t .write = (.refused fault, x.monitor)

theorem Step.took_write {w : ThreadId} {guard : Option Nat} (h : Step x x')
    (henabled : x.lock.enabled = true) (hlog : x'.log = .took w .write guard :: x.log) :
    x'.lock.writer = some w ∧ (x.lock.writer = some w ∨ x.lock.Free) := by
  cases h.turn henabled with
  | idle _ _ hsame =>
    rw [hsame] at hlog
    exact absurd hlog.symm (List.cons_ne_self _ _)
  | took me mode guard monitor hnew hgrants hparked htake =>
    rw [htake] at hlog
    cases hlog
    rw [htake]
    exact hgrants.writer_of_write
  | gave me what _ _ hgave =>
    rw [hgave] at hlog
    cases hlog
  | dropped g _ _ _ hdropped =>
    rw [hdropped] at hlog
    cases hlog

theorem Step.writer_cases {w : ThreadId} (h : Step x x') (henabled : x.lock.enabled = true)
    (hw : x'.lock.writer = some w) : x.lock.writer = some w ∨
    x.lock.Free ∧ ∃ guard, x'.log = .took w .write guard :: x.log := by
  cases h.turn henabled with
  | idle hlock =>
    rw [hlock] at hw
    exact .inl hw
  | took me mode guard monitor hnew hgrants hparked htake =>
    subst htake
    rcases hgrants.writer_cases hw with hsame | ⟨hfree, rfl, rfl⟩
    · exact .inl hsame
    · exact .inr ⟨hfree, guard, rfl⟩
  | gave me what hmonitor =>
    rw [lock_of_monitor_eq hmonitor] at hw
    exact .inl ((what.returns _ me).writer_of hw)
  | dropped g hopen hmonitor =>
    rw [lock_of_monitor_eq hmonitor] at hw
    exact .inl ((returns_leaveHold _ _ _).writer_of hw)

theorem Unwrapped.exclusionHolds (h : Unwrapped x) :
    x.ExclusionHolds ∧ ∀ x', Step x x' → (x'.lock.Exclusive ↔ Fits x x') := by
  have henabled := h.reachable.enabled
  refine ⟨⟨h.exclusive, ?_, ?_, ?_⟩, fun x' hstep => hstep.exclusive_iff henabled h.exclusive⟩
  · exact fun _ _ _ hstep hlog => hstep.took_write henabled hlog
  · exact fun _ _ hstep hw => hstep.writer_cases henabled hw
  · intro t hwriter hreads
    refine ⟨.readHeld, rfl, ?_⟩
    have hrefused := h.exclusive.enter_of_reader henabled hwriter hreads
    unfold Monitor.enter
    rw [show x.monitor.lock.enter t .write = .refused .readHeld from hrefused]

def nested : Threads :=
  let writing := { monitor := { lock := {} } : Threads }.take { lock := ({} : Lock).setWriter 1 } 1
    .write none (({} : Lock).epoch 1)
  let again := writing.take
    { lock := { writing.lock with writeHolds := writing.lock.writeHolds + 1 } } 1 .write none
    (writing.lock.epoch 1)
  again.take { lock := again.lock.addReadHold 1 } 1 .read none (again.lock.epoch 1)

theorem unwrapped_nested : Unwrapped nested := by
  have hwriting := Unwrapped.write .start 1 none nofun (free_empty.enter_eq rfl) nofun
  have hagain := hwriting.write 1 none nofun (enter_of_writer rfl rfl) fun _ => by decide
  refine hagain.read 1 rfl ?_ none nofun
  change ({} : Lock).readHolds 1 + 1 ≠ 0
  rw [free_empty.readHolds_eq]
  decide

def downgraded : Threads :=
  let once : Threads :=
    { nested with
      monitor := nested.monitor.leave (Unlock.write.release 1)
      log := .gave 1 .write :: nested.log }
  { once with
    monitor := once.monitor.leave (Unlock.write.release 1)
    log := .gave 1 .write :: once.log }

theorem unwrapped_downgraded : Unwrapped downgraded := by
  have honce := unwrapped_nested.step _ _ (.gave 1 .write) (fits_of_log_eq _ rfl nofun)
  exact honce.step _ _ (.gave 1 .write) (fits_of_log_eq _ rfl nofun)

theorem exclusionHolds_downgraded :
    (nested.lock.writer = some 1 ∧ nested.lock.writeHolds = 2 ∧
      ∀ t : ThreadId, t ≠ 1 → nested.lock.readers[t]? = none) ∧
    downgraded.lock.writer = none ∧ downgraded.lock.writeHolds = 0 ∧ 1 ∈ downgraded.lock.readers ∧
    ∃ fault : Fault, fault.kind = .concurrency ∧
      downgraded.monitor.enter 1 .write = (.refused fault, downgraded.monitor) := by
  have hreads : 1 ∈ downgraded.lock.readers := Std.ExtHashMap.mem_insert_self
  obtain ⟨hnested, _⟩ := Unwrapped.exclusionHolds unwrapped_nested
  obtain ⟨hdowngraded, _⟩ := Unwrapped.exclusionHolds unwrapped_downgraded
  refine ⟨⟨rfl, rfl, (hnested.exclusive.writer_alone 1 rfl).2⟩, rfl, ?_, hreads, ?_⟩
  · exact hdowngraded.exclusive.writeHolds_eq_zero rfl
  · exact hdowngraded.refuses 1 nofun hreads

/-! ### One hold too many -/

def readAgain (x : Threads) : Threads :=
  x.take { x.monitor with lock := x.lock.addReadHold 1 } 1 .read none (x.lock.epoch 1)

def manyReads (holds : Nat) : Threads := readAgain^[holds] { monitor := { lock := {} } }

theorem manyReads_succ (n : Nat) : manyReads (n + 1) = readAgain (manyReads n) :=
  Function.iterate_succ_apply' _ _ _

theorem writer_manyReads (n : Nat) : (manyReads n).lock.writer = none := by
  induction n with
  | zero => rfl
  | succ n ih =>
    rw [manyReads_succ]
    exact ih

theorem log_manyReads (n : Nat) : (manyReads n).log = List.replicate n (.took 1 .read none) := by
  induction n with
  | zero => rfl
  | succ n ih =>
    rw [manyReads_succ, List.replicate_succ, ← ih]
    rfl

theorem reachable_manyReads (n : Nat) : Reachable (manyReads n) := by
  induction n with
  | zero => exact .start
  | succ n ih =>
    rw [manyReads_succ]
    refine ih.read 1 (mayRead_iff.mpr fun w hw => ?_) none nofun
    rw [writer_manyReads] at hw
    cases hw

theorem readHolds_manyReads (n : Nat) : (manyReads n).lock.readHolds 1 = UInt32.ofNat n := by
  induction n with
  | zero =>
    rw [readHolds_eq]
    exact congrArg (Option.getD · 0) Std.ExtHashMap.getElem?_empty
  | succ n ih =>
    rw [manyReads_succ, UInt32.ofNat_add, ← ih]
    exact readHolds_addReadHold.trans (congrArg _ (if_pos rfl))

theorem readers_manyReads (n : Nat) :
    (manyReads (n + 1)).lock.readers[1]? = some (UInt32.ofNat (n + 1)) := by
  rw [UInt32.ofNat_add, ← readHolds_manyReads, manyReads_succ]
  exact Std.ExtHashMap.getElem?_insert_self

theorem enter_manyReads {n : Nat} (hwrap : UInt32.ofNat (n + 1) = 0) :
    ((manyReads (n + 1)).monitor.enter 1 .write).1 = .parked := by
  have hzero : (manyReads (n + 1)).lock.readers[1]? = some 0 := hwrap ▸ readers_manyReads n
  have hwaits := enter_of_recorded_zero (reachable_manyReads (n + 1)).enabled
    (writer_manyReads (n + 1)) hzero
  unfold Monitor.enter
  rw [show (manyReads (n + 1)).monitor.lock.enter 1 .write = .waits from hwaits]

theorem not_exclusionHolds_of_wrap {n : Nat} (hwrap : UInt32.ofNat (n + 1) = 0) :
    ¬(manyReads (n + 1)).ExclusionHolds := by
  intro hholds
  have hzero : (manyReads (n + 1)).lock.readers[1]? = some 0 := hwrap ▸ readers_manyReads n
  exact absurd (hholds.exclusive.one_le_readers 1 0 hzero) (by decide)

theorem not_exclusionHolds_manyReads :
    Reachable (manyReads (2 ^ 32)) ∧ (manyReads (2 ^ 32)).lock.writer = none ∧
    (manyReads (2 ^ 32)).log = List.replicate (2 ^ 32) (.took 1 .read none) ∧
    ((manyReads (2 ^ 32)).monitor.enter 1 .write).1 = .parked ∧
    ¬(manyReads (2 ^ 32)).ExclusionHolds :=
  ⟨reachable_manyReads _, writer_manyReads _, log_manyReads _,
    enter_manyReads (n := 4294967295) (by decide), not_exclusionHolds_of_wrap (n := 4294967295) (by decide)⟩

end Threads

end PropertyGraph.Lock

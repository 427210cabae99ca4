import PropertyGraph.Proofs.Lock.Exclusion

/-!
# How often a thread holds a lock

A thread takes read holds by calls and by guards, and the lock keeps one count of both. When the
thread gives all of them back its next epoch begins, and the guards that it still has own nothing
any more. So the epoch of a guard is the present one exactly if the guard was taken since, and the
count comes to what was taken since and has not been given back. That holds as long as neither the
counts nor the epochs run over.
-/

namespace PropertyGraph.Lock

variable {log : List LogEntry} {entry other : LogEntry} {me t : ThreadId}

/-- What a thread has done since it last gave all its read holds back. -/
def since (log : List LogEntry) (t : ThreadId) : List LogEntry :=
  (log.filter (·.doer = t)).takeWhile (· ≠ .gave t .allReads)

/-- How many read holds the thread has taken since then without a guard. -/
def readsTaken (log : List LogEntry) (t : ThreadId) : Nat :=
  (since log t).count (.took t .read none)

/-- How many single read holds the thread has given back since then by calls. -/
def readsGiven (log : List LogEntry) (t : ThreadId) : Nat :=
  (since log t).count (.gave t .read)

/-- No thread has ever given back by calls more than it had taken without guards. -/
def Balanced (log : List LogEntry) : Prop :=
  ∀ past, past <:+ log → ∀ t, readsGiven past t ≤ readsTaken past t

def restarts (log : List LogEntry) (t : ThreadId) : Nat := log.count (.gave t .allReads)

/-- No thread has given all its read holds back so often that its epochs come round again. -/
def FewRestarts (log : List LogEntry) : Prop := ∀ t, restarts log t < 2 ^ 64

theorem restarts_cons : restarts (entry :: log) t =
    restarts log t + if entry = .gave t .allReads then 1 else 0 := by
  rw [restarts, List.count_cons]
  simp [restarts]

theorem FewRestarts.of_cons (h : FewRestarts (entry :: log)) : FewRestarts log :=
  fun t => Nat.lt_of_le_of_lt (List.count_le_count_cons) (h t)

theorem since_allReads : since (.gave t .allReads :: log) t = [] := by
  simp [since, LogEntry.doer]

theorem since_cons_self (hdoer : entry.doer = t) (h : entry ≠ .gave t .allReads) :
    since (entry :: log) t = entry :: since log t := by
  simp [since, hdoer, h]

theorem since_cons_of_ne (hdoer : entry.doer ≠ t) : since (entry :: log) t = since log t := by
  simp [since, hdoer]

theorem mem_since_cons (h : entry ≠ .gave t .allReads) (hother : other ≠ entry) :
    other ∈ since (entry :: log) t ↔ other ∈ since log t := by
  by_cases hdoer : entry.doer = t
  · rw [since_cons_self hdoer h, List.mem_cons]
    exact or_iff_right hother
  · rw [since_cons_of_ne hdoer]

theorem count_since_cons (h : entry ≠ .gave t .allReads) (hother : other.doer = t) :
    (since (entry :: log) t).count other =
      (since log t).count other + if entry = other then 1 else 0 := by
  by_cases hdoer : entry.doer = t
  · rw [since_cons_self hdoer h, List.count_cons]
    simp
  · have hne : entry ≠ other := fun heq => hdoer (heq ▸ hother)
    rw [since_cons_of_ne hdoer, if_neg hne, Nat.add_zero]

theorem readsTaken_took {mode : Mode} {guard : Option Nat} :
    readsTaken (.took me mode guard :: log) t =
      readsTaken log t + if guard = none ∧ t = me ∧ mode = .read then 1 else 0 := by
  have hentry : LogEntry.took me mode guard ≠ .gave t .allReads := nofun
  rw [readsTaken, count_since_cons hentry rfl]
  simp only [LogEntry.took.injEq, eq_comm (a := me)]
  congr 2
  exact propext ⟨fun ⟨ht, hmode, hguard⟩ => ⟨hguard, ht, hmode⟩,
    fun ⟨hguard, ht, hmode⟩ => ⟨ht, hmode, hguard⟩⟩

theorem readsGiven_took {mode : Mode} {guard : Option Nat} :
    readsGiven (.took me mode guard :: log) t = readsGiven log t := by
  have hentry : LogEntry.took me mode guard ≠ .gave t .allReads := nofun
  rw [readsGiven, count_since_cons hentry rfl, if_neg nofun]
  rfl

theorem readsTaken_gave {what : Unlock} (h : ¬(t = me ∧ what = .allReads)) :
    readsTaken (.gave me what :: log) t = readsTaken log t := by
  have hentry : LogEntry.gave me what ≠ .gave t .allReads := fun heq => by
    cases heq
    exact h ⟨rfl, rfl⟩
  rw [readsTaken, count_since_cons hentry rfl, if_neg nofun]
  rfl

theorem readsGiven_gave {what : Unlock} (h : ¬(t = me ∧ what = .allReads)) :
    readsGiven (.gave me what :: log) t =
      readsGiven log t + if t = me ∧ what = .read then 1 else 0 := by
  have hentry : LogEntry.gave me what ≠ .gave t .allReads := fun heq => by
    cases heq
    exact h ⟨rfl, rfl⟩
  rw [readsGiven, count_since_cons hentry rfl]
  simp only [LogEntry.gave.injEq, eq_comm (a := me)]
  rfl

theorem readsTaken_dropped {number : Nat} :
    readsTaken (.dropped me number :: log) t = readsTaken log t := by
  have hentry : LogEntry.dropped me number ≠ .gave t .allReads := nofun
  rw [readsTaken, count_since_cons hentry rfl, if_neg nofun]
  rfl

theorem readsGiven_dropped {number : Nat} :
    readsGiven (.dropped me number :: log) t = readsGiven log t := by
  have hentry : LogEntry.dropped me number ≠ .gave t .allReads := nofun
  rw [readsGiven, count_since_cons hentry rfl, if_neg nofun]
  rfl

theorem Balanced.of_cons (h : Balanced (entry :: log)) : Balanced log :=
  fun past hpast => h past (hpast.trans (List.suffix_cons entry log))

theorem Balanced.cons (h : Balanced log)
    (hentry : ∀ t, readsGiven (entry :: log) t ≤ readsTaken (entry :: log) t) :
    Balanced (entry :: log) := by
  intro past hpast
  rcases List.suffix_cons_iff.mp hpast with rfl | hpast
  · exact hentry
  · exact h past hpast

theorem readsGiven_eq_zero (h : .gave t .read ∉ log) : readsGiven log t = 0 := by
  refine List.count_eq_zero.mpr fun hmem => h ?_
  exact (List.mem_filter.mp ((List.takeWhile_prefix _).subset hmem)).1

theorem balanced_of_not_mem (h : ∀ t, .gave t .read ∉ log) : Balanced log := by
  intro past hpast t
  rw [readsGiven_eq_zero fun hmem => h t (hpast.subset hmem)]
  exact Nat.zero_le _

/-! ### What a thread gives back -/

variable {l : Lock} {epoch : UInt64}

theorem epoch_dropReadHold : (l.dropReadHold me).lock.epoch t = l.epoch t := by
  obtain ⟨readers, heq⟩ := dropReadHold_eq l me
  rw [heq]
  rfl

theorem readHolds_leaveWrite : (l.leaveWrite me).lock.readHolds t = l.readHolds t := by
  obtain ⟨writer, writeHolds, heq⟩ := leaveWrite_eq l me
  rw [heq]
  rfl

theorem epoch_leaveWrite : (l.leaveWrite me).lock.epoch t = l.epoch t := by
  obtain ⟨writer, writeHolds, heq⟩ := leaveWrite_eq l me
  rw [heq]
  rfl

theorem epoch_leaveHold (hold : Hold) : (l.leaveHold me hold).lock.epoch t = l.epoch t := by
  cases hold with
  | read epoch =>
    change (l.leaveReadOf me epoch).lock.epoch t = l.epoch t
    unfold leaveReadOf
    split
    · exact epoch_dropReadHold
    · rfl
  | write => exact epoch_leaveWrite

theorem Unlock.epoch_eq (henabled : l.enabled = true) (what : Unlock) :
    (what.release me l).lock.epoch t =
      l.epoch t + if t = me ∧ what = .allReads then 1 else 0 := by
  cases what with
  | read =>
    change (l.leaveRead me).lock.epoch t = _
    rw [leaveRead_eq henabled, epoch_dropReadHold]
    simp
  | allReads =>
    change (l.leaveAllReads me).lock.epoch t = _
    rw [epoch_leaveAllReads henabled]
    simp
  | write =>
    change (l.leaveWrite me).lock.epoch t = _
    rw [epoch_leaveWrite]
    simp

theorem Returns.readHolds_of_ne {r : Release} (h : l.Returns me r) (henabled : l.enabled = true)
    (hne : t ≠ me) : r.lock.readHolds t = l.readHolds t := by
  cases h with
  | nothing => rfl
  | read =>
    rw [← UInt32.toNat_inj, toNat_readHolds_dropReadHold, if_neg hne, Nat.sub_zero]
  | allReads => rw [readHolds_leaveAllReads henabled, if_neg hne]
  | write => exact readHolds_leaveWrite

theorem Grants.toNat_readHolds {mode : Mode} {l' : Lock} (h : l.Grants me mode l')
    (hroom : l.HasRoom me mode) : (l'.readHolds t).toNat =
      (l.readHolds t).toNat + if t = me ∧ mode = .read then 1 else 0 := by
  rw [h.readHolds_eq]
  by_cases hread : t = me ∧ mode = .read
  · obtain ⟨rfl, rfl⟩ := hread
    rw [if_pos ⟨rfl, rfl⟩, if_pos ⟨rfl, rfl⟩]
    exact toNat_add_one hroom
  · rw [if_neg hread, if_neg hread, UInt32.add_zero, Nat.add_zero]

/-! ### Guards and epochs -/

namespace Threads

variable {x x' : Threads}

/-- The epoch of a thread tells how often it gave everything back. A guard took its hold, and its
epoch tells how often its thread had given everything back by then: as often as by now exactly if the
guard was taken since. -/
structure Dated (x : Threads) : Prop where
  epoch_eq : ∀ t, x.lock.epoch t = UInt64.ofNat (restarts x.log t)
  taken : ∀ g ∈ x.guards, ∃ mode, .took g.owner mode (some g.number) ∈ x.log
  dated : ∀ g ∈ x.guards, ∀ epoch, g.hold = .read epoch →
    ∃ n ≤ restarts x.log g.owner, epoch = UInt64.ofNat n ∧
      (n = restarts x.log g.owner ↔ .took g.owner .read (some g.number) ∈ since x.log g.owner)

theorem ofNat_inj {m n : Nat} (hle : m ≤ n) (hlt : n < 2 ^ 64) :
    UInt64.ofNat m = UInt64.ofNat n ↔ m = n := by
  refine ⟨fun heq => ?_, congrArg _⟩
  have hnat := congrArg UInt64.toNat heq
  rwa [UInt64.toNat_ofNat_of_lt' (Nat.lt_of_le_of_lt hle hlt), UInt64.toNat_ofNat_of_lt' hlt] at hnat

/-- A guard owns a hold exactly if its thread took it after it last gave everything back. -/
theorem Dated.epoch_eq_iff (h : x.Dated) (hfew : FewRestarts x.log) {g : OpenGuard}
    (hg : g ∈ x.guards) {epoch : UInt64} (hhold : g.hold = .read epoch) :
    epoch = x.lock.epoch g.owner ↔
      .took g.owner .read (some g.number) ∈ since x.log g.owner := by
  obtain ⟨n, hle, rfl, hiff⟩ := h.dated g hg epoch hhold
  rw [h.epoch_eq, ofNat_inj hle (hfew g.owner)]
  exact hiff

theorem Dated.of_subset (h : x.Dated) (hguards : ∀ g ∈ x'.guards, g ∈ x.guards)
    (hlog : x'.log = entry :: x.log)
    (hepoch : ∀ t, x'.lock.epoch t = x.lock.epoch t + if entry = .gave t .allReads then 1 else 0)
    (hentry : ∀ me mode guard, entry ≠ .took me mode guard) : x'.Dated where
  epoch_eq := by
    intro t
    rw [hepoch, h.epoch_eq, hlog, restarts_cons]
    split
    · rw [UInt64.ofNat_add]
      rfl
    · rw [UInt64.add_zero, Nat.add_zero]
  taken := by
    intro g hg
    obtain ⟨mode, hmem⟩ := h.taken g (hguards g hg)
    rw [hlog]
    exact ⟨mode, List.mem_cons_of_mem entry hmem⟩
  dated := by
    intro g hg epoch hhold
    obtain ⟨n, hle, heq, hiff⟩ := h.dated g (hguards g hg) epoch hhold
    rw [hlog, restarts_cons]
    refine ⟨n, by omega, heq, ?_⟩
    by_cases hall : entry = .gave g.owner .allReads
    · rw [if_pos hall, hall, since_allReads]
      exact ⟨fun heq => by omega, fun hmem => absurd hmem List.not_mem_nil⟩
    · rw [if_neg hall, Nat.add_zero, mem_since_cons hall (Ne.symm (hentry _ _ _))]
      exact hiff

theorem mem_guards_take {monitor : Monitor} {mode : Mode} {guard : Option Nat} {epoch : UInt64}
    {g : OpenGuard} (h : g ∈ (x.take monitor me mode guard epoch).guards) :
    g ∈ x.guards ∨ guard = some g.number ∧ g.owner = me ∧ g.hold = mode.hold epoch := by
  rcases List.mem_append.mp h with hnew | hold
  · cases guard with
    | none => cases hnew
    | some number =>
      rw [List.mem_singleton.mp hnew]
      exact .inr ⟨rfl, rfl, rfl⟩
  · exact .inl hold

theorem Dated.take {monitor : Monitor} {mode : Mode} {guard : Option Nat} (h : x.Dated)
    (hnew : x.Unused guard) (hgrants : x.lock.Grants me mode monitor.lock) :
    (x.take monitor me mode guard (x.lock.epoch me)).Dated where
  epoch_eq := by
    intro t
    change monitor.lock.epoch t = UInt64.ofNat (restarts (.took me mode guard :: x.log) t)
    rw [hgrants.epoch_eq, h.epoch_eq, restarts_cons, if_neg nofun, Nat.add_zero]
  taken := by
    intro g hg
    rcases mem_guards_take hg with hg | ⟨hguard, howner, _⟩
    · obtain ⟨mode', hmem⟩ := h.taken g hg
      exact ⟨mode', List.mem_cons_of_mem _ hmem⟩
    · rw [howner, ← hguard]
      exact ⟨mode, List.mem_cons_self⟩
  dated := by
    intro g hg epoch hhold
    have hentry : LogEntry.took me mode guard ≠ .gave g.owner .allReads := nofun
    change ∃ n ≤ restarts (.took me mode guard :: x.log) g.owner, epoch = UInt64.ofNat n ∧
      (n = restarts (.took me mode guard :: x.log) g.owner ↔
        _ ∈ since (.took me mode guard :: x.log) g.owner)
    rw [restarts_cons, if_neg hentry, Nat.add_zero]
    rcases mem_guards_take hg with hg | ⟨hguard, howner, hheld⟩
    · -- the guard that is new has a number that this one has not
      obtain ⟨mode', hmem⟩ := h.taken g hg
      have hother : LogEntry.took g.owner .read (some g.number) ≠ .took me mode guard := by
        intro heq
        cases heq
        exact hnew _ rfl _ _ hmem
      rw [mem_since_cons hentry hother]
      exact h.dated g hg epoch hhold
    · rw [hheld] at hhold
      cases mode <;> cases hhold
      have hself : (LogEntry.took me .read guard).doer = g.owner := howner.symm
      rw [since_cons_self hself hentry, howner, ← hguard]
      exact ⟨_, Nat.le_refl _, h.epoch_eq me, fun _ => List.mem_cons_self, fun _ => rfl⟩

theorem Step.dated (hstep : Step x x') (henabled : x.lock.enabled = true) (h : x.Dated) :
    x'.Dated := by
  cases hstep.turn henabled with
  | idle hlock hguards hlog =>
    obtain ⟨hepoch, htaken, hdated⟩ := h
    constructor
    · rwa [hlock, hlog]
    · rwa [hguards, hlog]
    · rwa [hguards, hlog]
  | took me mode guard monitor hnew hgrants hparked htake =>
    subst htake
    exact h.take hnew hgrants
  | gave me what hmonitor hguards hlog =>
    refine h.of_subset (fun g hg => hguards ▸ hg) hlog (fun t => ?_) nofun
    rw [lock_of_monitor_eq hmonitor, what.epoch_eq henabled]
    congr 1
    simp [eq_comm]
  | dropped g hopen hmonitor hguards hlog =>
    refine h.of_subset (fun g' hg => ?_) hlog (fun t => ?_) nofun
    · rw [hguards] at hg
      exact List.mem_of_mem_erase hg
    · rw [lock_of_monitor_eq hmonitor, epoch_leaveHold, if_neg nofun, UInt64.add_zero]

theorem epoch_unused : ({} : Lock).epoch t = 0 := by
  rw [Lock.epoch, Std.ExtHashMap.getD_eq_getD_getElem?, Std.ExtHashMap.getElem?_empty]
  rfl

theorem Reachable.dated (h : Reachable x) : x.Dated := by
  induction h with
  | start => exact ⟨fun t => epoch_unused, nofun, nofun⟩
  | step x x' hx hstep ih => exact hstep.dated hx.enabled ih

/-! ### The count -/

def owning (x : Threads) (t : ThreadId) : Nat :=
  x.guards.countP fun g => g.owner = t ∧ g.hold = .read (x.lock.epoch t)

/-- How many guards the thread took since it last gave everything back, to read, and has not
dropped. -/
def openReads (x : Threads) (t : ThreadId) : Nat :=
  x.guards.countP fun g => g.owner = t ∧ g.hold ≠ .write ∧
    .took t .read (some g.number) ∈ since x.log t

theorem Dated.owning_eq (h : x.Dated) (hfew : FewRestarts x.log) (t : ThreadId) :
    x.owning t = x.openReads t := by
  refine List.countP_congr fun g hg => ?_
  simp only [decide_eq_true_eq]
  refine and_congr_right fun howner => ?_
  subst howner
  cases hhold : g.hold with
  | read epoch =>
    rw [← h.epoch_eq_iff hfew hg hhold]
    simp
  | write => simp

/-- What is held and what was given back come to what was taken and what guards own. -/
def Accounted (x : Threads) : Prop :=
  ∀ t, (x.lock.readHolds t).toNat + readsGiven x.log t = readsTaken x.log t + x.owning t

theorem owning_take {monitor : Monitor} {mode : Mode} {guard : Option Nat}
    (hgrants : x.lock.Grants me mode monitor.lock) :
    (x.take monitor me mode guard (x.lock.epoch me)).owning t =
      x.owning t + if guard ≠ none ∧ t = me ∧ mode = .read then 1 else 0 := by
  unfold owning
  change List.countP (fun g : OpenGuard => decide (g.owner = t ∧
    g.hold = .read (monitor.lock.epoch t))) ((guard.map _).toList ++ x.guards) = _
  rw [hgrants.epoch_eq, List.countP_append, Nat.add_comm]
  congr 1
  cases guard with
  | none => simp
  | some number =>
    by_cases ht : t = me
    · subst ht
      cases mode <;> simp [Mode.hold]
    · simp [ht, Ne.symm ht]

theorem Accounted.take {monitor : Monitor} {mode : Mode} {guard : Option Nat} (h : x.Accounted)
    (hgrants : x.lock.Grants me mode monitor.lock) (hroom : x.lock.HasRoom me mode) :
    (x.take monitor me mode guard (x.lock.epoch me)).Accounted := by
  intro t
  have hbefore := h t
  have hholds : (monitor.lock.readHolds t).toNat = _ := hgrants.toNat_readHolds hroom
  have howning : (x.take monitor me mode guard (x.lock.epoch me)).owning t = _ :=
    owning_take hgrants
  change (monitor.lock.readHolds t).toNat + readsGiven (.took me mode guard :: x.log) t =
    readsTaken (.took me mode guard :: x.log) t + _
  rw [hholds, howning, readsTaken_took, readsGiven_took]
  by_cases hread : t = me ∧ mode = .read
  · cases guard with
    | none =>
      rw [if_pos hread, if_pos ⟨rfl, hread⟩, if_neg fun h => h.1 rfl]
      omega
    | some number =>
      rw [if_pos hread, if_neg nofun, if_pos ⟨nofun, hread⟩]
      omega
  · rw [if_neg hread, if_neg fun h => hread h.2, if_neg fun h => hread h.2]
    omega

theorem owning_of_epoch_eq (hguards : x'.guards = x.guards)
    (hepoch : x'.lock.epoch t = x.lock.epoch t) : x'.owning t = x.owning t := by
  unfold owning
  rw [hguards, hepoch]

theorem Dated.owning_eq_zero (h : x'.Dated) (hfew : FewRestarts x'.log)
    (hlog : x'.log = .gave t .allReads :: log) : x'.owning t = 0 := by
  rw [h.owning_eq hfew]
  refine List.countP_eq_zero.mpr fun g hg => ?_
  rw [hlog, since_allReads]
  simp

theorem Accounted.gave {what : Unlock} (h : x.Accounted) (hdated : x'.Dated)
    (henabled : x.lock.enabled = true) (hmonitor : x'.monitor = x.monitor.leave (what.release me))
    (hguards : x'.guards = x.guards) (hlog : x'.log = .gave me what :: x.log)
    (hbalanced : Balanced x'.log) (hfew : FewRestarts x'.log) : x'.Accounted := by
  intro t
  have hbefore := h t
  have hlock := lock_of_monitor_eq hmonitor
  have hepoch : (what.release me x.lock).lock.epoch t = _ := what.epoch_eq henabled
  rw [← hlock] at hepoch
  have hgives := hbalanced _ (List.suffix_refl _) t
  by_cases hall : t = me ∧ what = .allReads
  · obtain ⟨rfl, rfl⟩ := hall
    have hnothing : x'.lock.readHolds t = 0 := by
      rw [hlock]
      exact (readHolds_leaveAllReads henabled).trans (if_pos rfl)
    rw [hnothing, hdated.owning_eq_zero hfew hlog, hlog, readsTaken, readsGiven, since_allReads]
    rfl
  · rw [if_neg hall, UInt64.add_zero] at hepoch
    rw [hlog, readsTaken_gave hall, readsGiven_gave hall] at hgives ⊢
    rw [owning_of_epoch_eq hguards hepoch, hlock]
    by_cases ht : t = me
    · subst ht
      cases what with
      | read =>
        change ((x.lock.leaveRead t).lock.readHolds t).toNat + _ = _
        rw [leaveRead_eq henabled, toNat_readHolds_dropReadHold]
        simp only [and_self, if_true] at hgives ⊢
        omega
      | allReads => exact absurd ⟨rfl, rfl⟩ hall
      | write =>
        change ((x.lock.leaveWrite t).lock.readHolds t).toNat + _ = _
        rw [readHolds_leaveWrite, if_neg nofun]
        exact hbefore
    · rw [(what.returns x.lock me).readHolds_of_ne henabled ht, if_neg (fun h => ht h.1)]
      exact hbefore

theorem owning_erase {g : OpenGuard} (hopen : g ∈ x.guards) (hguards : x'.guards = x.guards.erase g)
    (hepoch : x'.lock.epoch t = x.lock.epoch t) : x'.owning t =
      x.owning t - if g.owner = t ∧ g.hold = .read (x.lock.epoch t) then 1 else 0 := by
  unfold owning
  rw [hguards, hepoch, List.countP_erase]
  simp [hopen]

theorem toNat_readHolds_leaveHold (henabled : l.enabled = true) (hold : Hold) :
    ((l.leaveHold me hold).lock.readHolds t).toNat =
      (l.readHolds t).toNat - if me = t ∧ hold = .read (l.epoch t) then 1 else 0 := by
  cases hold with
  | read epoch =>
    change ((l.leaveReadOf me epoch).lock.readHolds t).toNat = _
    rw [leaveReadOf_eq henabled]
    by_cases ht : me = t
    · subst ht
      by_cases hepoch : epoch = l.epoch me
      · rw [if_pos hepoch, toNat_readHolds_dropReadHold]
        simp [hepoch]
      · simp [hepoch]
    · split
      · rw [toNat_readHolds_dropReadHold]
        simp [ht, Ne.symm ht]
      · simp [ht]
  | write =>
    change ((l.leaveWrite me).lock.readHolds t).toNat = _
    rw [readHolds_leaveWrite, if_neg nofun, Nat.sub_zero]

theorem Accounted.dropped {g : OpenGuard} (h : x.Accounted) (henabled : x.lock.enabled = true)
    (hopen : g ∈ x.guards) (hmonitor : x'.monitor = x.monitor.leave (·.leaveHold g.owner g.hold))
    (hguards : x'.guards = x.guards.erase g) (hlog : x'.log = .dropped g.owner g.number :: x.log)
    (hbalanced : Balanced x'.log) : x'.Accounted := by
  intro t
  have hbefore := h t
  have hlock := lock_of_monitor_eq hmonitor
  have hepoch : x'.lock.epoch t = x.lock.epoch t := by rw [hlock, epoch_leaveHold]
  have hgives := hbalanced _ (List.suffix_refl _) t
  rw [hlog, readsTaken_dropped, readsGiven_dropped] at hgives ⊢
  rw [owning_erase hopen hguards hepoch, hlock, toNat_readHolds_leaveHold henabled]
  by_cases howns : g.owner = t ∧ g.hold = .read (x.lock.epoch t)
  · have hpos : 0 < x.owning t := by
      refine List.countP_pos_iff.mpr ⟨g, hopen, ?_⟩
      exact decide_eq_true howns
    rw [if_pos howns]
    omega
  · rw [if_neg howns]
    omega

theorem Step.accounted (hstep : Step x x') (hfits : Fits x x') (henabled : x.lock.enabled = true)
    (hdated : x'.Dated) (hbalanced : Balanced x'.log) (hfew : FewRestarts x'.log)
    (h : Balanced x.log → FewRestarts x.log → x.Accounted) : x'.Accounted := by
  cases hstep.turn henabled with
  | idle hlock hguards hlog =>
    intro t
    have hbefore := h (hlog ▸ hbalanced) (hlog ▸ hfew) t
    rw [hlock, hlog, owning_of_epoch_eq hguards (by rw [hlock])]
    exact hbefore
  | took me mode guard monitor hnew hgrants hparked htake =>
    subst htake
    exact (h hbalanced.of_cons hfew.of_cons).take hgrants (hfits me mode guard rfl)
  | gave me what hmonitor hguards hlog =>
    have hpast := h (hlog ▸ hbalanced).of_cons (hlog ▸ hfew).of_cons
    exact hpast.gave hdated henabled hmonitor hguards hlog hbalanced hfew
  | dropped g hopen hmonitor hguards hlog =>
    have hpast := h (hlog ▸ hbalanced).of_cons (hlog ▸ hfew).of_cons
    exact hpast.dropped henabled hopen hmonitor hguards hlog hbalanced

theorem Unwrapped.accounted (h : Unwrapped x) (hbalanced : Balanced x.log)
    (hfew : FewRestarts x.log) : x.Accounted := by
  induction h with
  | start =>
    intro t
    rw [readHolds_eq]
    simp [lock, owning, readsTaken, readsGiven, since]
  | step x x' hx hstep hfits ih =>
    have hdated := (hx.reachable.step _ _ hstep).dated
    exact hstep.accounted hfits hx.reachable.enabled hdated hbalanced hfew ih

theorem Step.readHolds_of_ne (hstep : Step x x') (henabled : x.lock.enabled = true)
    (hdoer : ∀ entry, x'.log = entry :: x.log → entry.doer ≠ t) :
    x'.lock.readHolds t = x.lock.readHolds t := by
  cases hstep.turn henabled with
  | idle hlock => rw [hlock]
  | took me mode guard monitor hnew hgrants hparked htake =>
    have hne : me ≠ t := hdoer (.took me mode guard) (by rw [htake]; rfl)
    subst htake
    change monitor.lock.readHolds t = _
    rw [hgrants.readHolds_eq, if_neg (fun h => hne h.1.symm), UInt32.add_zero]
  | gave me what hmonitor hguards hlog =>
    rw [lock_of_monitor_eq hmonitor]
    exact (what.returns _ me).readHolds_of_ne henabled (hdoer _ hlog).symm
  | dropped g hopen hmonitor hguards hlog =>
    rw [lock_of_monitor_eq hmonitor]
    exact (returns_leaveHold _ _ _).readHolds_of_ne henabled (hdoer _ hlog).symm

/-- A guard that its thread took before it gave everything back gives nothing back. -/
theorem Dated.leave_of_disowned {g : OpenGuard} (h : x.Dated) (hfew : FewRestarts x.log)
    (henabled : x.lock.enabled = true)
    (hopen : g ∈ x.guards) (hreads : g.hold ≠ .write)
    (hdisowned : .took g.owner .read (some g.number) ∉ since x.log g.owner) :
    x.monitor.leave (·.leaveHold g.owner g.hold) = x.monitor := by
  cases hhold : g.hold with
  | write => exact absurd hhold hreads
  | read epoch =>
    have hpast : epoch ≠ x.lock.epoch g.owner :=
      fun heq => hdisowned ((h.epoch_eq_iff hfew hopen hhold).mp heq)
    have hnothing : x.monitor.lock.leaveHold g.owner (.read epoch) =
        { lock := x.monitor.lock, wakes := false } :=
      (leaveReadOf_eq henabled).trans (if_neg hpast)
    unfold Monitor.leave
    dsimp only
    rw [hnothing]
    rfl

theorem Unwrapped.holds_accounted (h : Unwrapped x) (hbalanced : Balanced x.log)
    (hfew : FewRestarts x.log) :
    (∀ t, readsGiven x.log t ≤ readsTaken x.log t ∧
      (x.lock.readHolds t).toNat = (readsTaken x.log t - readsGiven x.log t) + x.openReads t) ∧
    (∀ g ∈ x.guards, g.hold ≠ .write →
      .took g.owner .read (some g.number) ∉ since x.log g.owner →
      x.monitor.leave (·.leaveHold g.owner g.hold) = x.monitor) ∧
    ∀ x' t, Step x x' → (∀ entry, x'.log = entry :: x.log → entry.doer ≠ t) →
      x'.lock.readHolds t = x.lock.readHolds t := by
  refine ⟨fun t => ?_, fun g hg hreads hdisowned => ?_, fun x' t hstep hdoer => ?_⟩
  · have hgives := hbalanced _ (List.suffix_refl _) t
    have hholds := h.accounted hbalanced hfew t
    rw [h.reachable.dated.owning_eq hfew] at hholds
    exact ⟨hgives, by omega⟩
  · exact h.reachable.dated.leave_of_disowned hfew h.reachable.enabled hg hreads hdisowned
  · exact hstep.readHolds_of_ne h.reachable.enabled hdoer

def afresh : Threads :=
  let guarded := { monitor := { lock := {} } : Threads }.take
    { lock := ({} : Lock).addReadHold 0 } 0 .read (some 7) (({} : Lock).epoch 0)
  let released : Threads :=
    { guarded with
      monitor := guarded.monitor.leave (Unlock.allReads.release 0)
      log := .gave 0 .allReads :: guarded.log }
  released.take { released.monitor with lock := released.lock.addReadHold 0 } 0 .read none
    (released.lock.epoch 0)

theorem hasRoom_of_readHolds_eq_zero (h : l.readHolds t = 0) : l.HasRoom t .read := by
  change l.readHolds t + 1 ≠ 0
  rw [h]
  decide

theorem unwrapped_afresh : Unwrapped afresh := by
  have hguarded := Unwrapped.start.read 0 rfl (free_empty.hasRoom .read) (some 7) (by simp [Unused])
  have hreleased := hguarded.step _ _ (.gave 0 .allReads) (fits_of_log_eq _ rfl nofun)
  refine hreleased.read 0 (mayRead_iff.mpr fun w hw => ?_) (hasRoom_of_readHolds_eq_zero ?_) none nofun
  · rw [lock, lock_leave] at hw
    cases hw
  · rw [lock, lock_leave]
    exact (readHolds_leaveAllReads rfl).trans (if_pos rfl)

theorem log_afresh :
    afresh.log = [.took 0 .read none, .gave 0 .allReads, .took 0 .read (some 7)] := rfl

theorem holds_accounted_afresh : Balanced afresh.log ∧ FewRestarts afresh.log ∧
    afresh.lock.readHolds 0 = 1 ∧
    ∃ g ∈ afresh.guards,
      afresh.monitor.leave (·.leaveHold g.owner g.hold) = afresh.monitor := by
  have hbalanced : Balanced afresh.log := balanced_of_not_mem fun t => by
    rw [log_afresh]
    simp
  have hfew : FewRestarts afresh.log := fun t =>
    Nat.lt_of_le_of_lt List.count_le_length (by decide)
  obtain ⟨hholds, hdisowned, _⟩ := Unwrapped.holds_accounted unwrapped_afresh hbalanced hfew
  refine ⟨hbalanced, hfew, UInt32.toNat_inj.mp (hholds 0).2, _, List.mem_singleton_self _, ?_⟩
  exact hdisowned _ (List.mem_singleton_self _) nofun (by decide)

/-! ### One hold too many -/

theorem balanced_manyReads (n : Nat) : Balanced (manyReads n).log :=
  balanced_of_not_mem fun t hmem => by
    rw [log_manyReads] at hmem
    cases List.eq_of_mem_replicate hmem

theorem readsTaken_replicate (n : Nat) :
    readsTaken (List.replicate n (.took 1 .read none)) 1 = n := by
  induction n with
  | zero => rfl
  | succ n ih =>
    rw [List.replicate_succ, readsTaken_took, ih, if_pos ⟨rfl, rfl, rfl⟩]

/-- The word tells how many reads there were only up to multiples of what it can count. -/
theorem readHolds_of_wrap {n : Nat} (hwrap : UInt32.ofNat n = 0) :
    (manyReads n).lock.readHolds 1 = 0 ∧ readsTaken (manyReads n).log 1 = n ∧
      readsGiven (manyReads n).log 1 = 0 := by
  refine ⟨by rw [readHolds_manyReads, hwrap], ?_, ?_⟩
  · rw [log_manyReads, readsTaken_replicate]
  · refine readsGiven_eq_zero fun hmem => ?_
    rw [log_manyReads] at hmem
    cases List.eq_of_mem_replicate hmem

theorem readHolds_ne_manyReads :
    Reachable (manyReads (2 ^ 32)) ∧ Balanced (manyReads (2 ^ 32)).log ∧
    (manyReads (2 ^ 32)).lock.readHolds 1 = 0 ∧
    readsTaken (manyReads (2 ^ 32)).log 1 = 2 ^ 32 ∧ readsGiven (manyReads (2 ^ 32)).log 1 = 0 :=
  ⟨reachable_manyReads _, balanced_manyReads _, readHolds_of_wrap (by decide)⟩

end Threads

end PropertyGraph.Lock

import Mathlib.Data.List.TakeWhile
import PropertyGraph.Proofs.Lock.Holds

/-!
# Guards that own a hold

A guard for reading owns its hold until it is dropped, or until its thread gives all its read holds
back. So one that owns a hold has owned it ever since it was taken, and all that time its thread has
been reading.
-/

namespace PropertyGraph.Lock

theorem Balanced.of_suffix {log log' : List LogEntry} (h : Balanced log') (hsuffix : log <:+ log') :
    Balanced log := fun past hpast => h past (hpast.trans hsuffix)

theorem FewRestarts.of_suffix {log log' : List LogEntry} (h : FewRestarts log')
    (hsuffix : log <:+ log') :
    FewRestarts log := fun t => Nat.lt_of_le_of_lt (hsuffix.sublist.count_le _) (h t)

theorem mem_since {log : List LogEntry} {entry : LogEntry} {t : ThreadId} (h : .gave t .allReads ∉ log)
    (hmem : entry ∈ log) (hdoer : entry.doer = t) : entry ∈ since log t := by
  have hall : ∀ other ∈ log.filter (·.doer = t), decide (other ≠ .gave t .allReads) = true :=
    fun other hother => decide_eq_true fun heq => h (heq ▸ (List.mem_filter.mp hother).1)
  rw [since, List.takeWhile_eq_self_iff.mpr hall]
  exact List.mem_filter.mpr ⟨hmem, decide_eq_true hdoer⟩

namespace Threads

variable {x x' : Threads} {t : ThreadId} {number : Nat}

/-- The guard with the number is open, and its thread has not given everything back since it took it. -/
def Owns (x : Threads) (t : ThreadId) (number : Nat) : Prop :=
  (∃ epoch, ⟨number, t, .read epoch⟩ ∈ x.guards) ∧ .took t .read (some number) ∈ since x.log t

theorem owns_take (x : Threads) (monitor : Monitor) (t : ThreadId) (number : Nat)
    (epoch : UInt64) :
    (x.take monitor t .read (some number) epoch).Owns t number := by
  have hdoer : (LogEntry.took t .read (some number)).doer = t := rfl
  refine ⟨⟨epoch, List.mem_cons_self⟩, ?_⟩
  change _ ∈ since (.took t .read (some number) :: x.log) t
  rw [since_cons_self hdoer nofun]
  exact List.mem_cons_self

theorem Unwrapped.readHolds_ne_zero (h : Unwrapped x) (hbalanced : Balanced x.log)
    (hfew : FewRestarts x.log) (howns : x.Owns t number) : x.lock.readHolds t ≠ 0 := by
  obtain ⟨⟨epoch, hopen⟩, hsince⟩ := howns
  have hpos : 0 < x.openReads t :=
    List.countP_pos_iff.mpr ⟨_, hopen, decide_eq_true ⟨rfl, nofun, hsince⟩⟩
  have hgives := hbalanced _ (List.suffix_refl _) t
  have hholds := h.accounted hbalanced hfew t
  rw [h.reachable.dated.owning_eq hfew] at hholds
  intro hzero
  rw [hzero, UInt32.toNat_zero] at hholds
  omega

theorem Step.log_suffix (hstep : Step x x') (henabled : x.lock.enabled = true) :
    x.log <:+ x'.log := by
  cases hstep.turn henabled with
  | idle _ _ hlog => rw [hlog]
  | took me mode guard monitor _ _ _ htake =>
    rw [htake]
    exact List.suffix_cons _ _
  | gave me what _ _ hlog =>
    rw [hlog]
    exact List.suffix_cons _ _
  | dropped g _ _ _ hlog =>
    rw [hlog]
    exact List.suffix_cons _ _

theorem Step.owns_of (hstep : Step x x') (henabled : x.lock.enabled = true)
    (hused : .took t .read (some number) ∈ x.log) (h : x'.Owns t number) : x.Owns t number := by
  obtain ⟨⟨epoch, hopen⟩, hsince⟩ := h
  cases hstep.turn henabled with
  | idle _ hguards hlog =>
    rw [hguards] at hopen
    rw [hlog] at hsince
    exact ⟨⟨epoch, hopen⟩, hsince⟩
  | took me mode guard monitor hnew _ _ htake =>
    subst htake
    have hentry : LogEntry.took me mode guard ≠ .gave t .allReads := nofun
    have hother : LogEntry.took t .read (some number) ≠ .took me mode guard := by
      intro heq
      cases heq
      exact hnew number rfl t .read hused
    refine ⟨⟨epoch, (mem_guards_take hopen).resolve_right ?_⟩, (mem_since_cons hentry hother).mp hsince⟩
    rintro ⟨hguard, _⟩
    exact hnew number hguard t .read hused
  | gave me what _ hguards hlog =>
    rw [hguards] at hopen
    rw [hlog] at hsince
    have hall : LogEntry.gave me what ≠ .gave t .allReads := by
      intro heq
      rw [heq, since_allReads] at hsince
      cases hsince
    have hother : LogEntry.took t .read (some number) ≠ .gave me what := nofun
    exact ⟨⟨epoch, hopen⟩, (mem_since_cons hall hother).mp hsince⟩
  | dropped g _ _ hguards hlog =>
    rw [hguards] at hopen
    rw [hlog] at hsince
    have hentry : LogEntry.dropped g.owner g.number ≠ .gave t .allReads := nofun
    have hother : LogEntry.took t .read (some number) ≠ .dropped g.owner g.number := nofun
    exact ⟨⟨epoch, List.mem_of_mem_erase hopen⟩, (mem_since_cons hentry hother).mp hsince⟩

theorem leave_idle (lock : Lock) (release : Lock → Release) :
    ({ lock } : Monitor).leave release = { lock := (release lock).lock } := by
  unfold Monitor.leave
  dsimp only
  split <;> rfl

end Threads

end PropertyGraph.Lock

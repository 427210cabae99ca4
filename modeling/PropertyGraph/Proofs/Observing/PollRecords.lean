import PropertyGraph.Graph.Observing
import PropertyGraph.Proofs.Graph.Locking
import PropertyGraph.Proofs.Observing.Watching

/-!
# The record of the polls of an observer

Beside a run of the graphs a record is kept for one observer: the membership at its last positive
poll, whether a step since its last poll has changed the membership, how far the counters have gone,
and which diffs it was given. It is written from what happens, not from what the observer
remembers.
-/

namespace PropertyGraph

/-! ### How far a counter goes -/

namespace Version

variable {c c' : Int32} {k : Nat}

def raised (c c' : Int32) : Nat := (c' - c).toUInt32.toNat

theorem add_raised (c c' : Int32) : c + .ofNat (raised c c') = c' := by
  have hgap : Int32.ofNat (raised c c') = c' - c := by
    apply Int32.toBitVec_inj.mp
    simp [raised]
  rw [hgap, Int32.add_comm, Int32.sub_add_cancel]

theorem eq_add_raised {last : Int32} (h : c = last + .ofNat k) (c' : Int32) :
    c' = last + .ofNat (k + raised c c') := by
  calc c' = c + .ofNat (raised c c') := (add_raised c c').symm
    _ = last + .ofNat k + .ofNat (raised c c') := by rw [h]
    _ = last + (.ofNat k + .ofNat (raised c c')) := Int32.add_assoc _ _ _
    _ = last + .ofNat (k + raised c c') := by rw [Int32.ofNat_add]

theorem raised_eq_zero_iff : raised c c' = 0 ↔ c' = c := by
  constructor
  · intro hzero
    have hsame := add_raised c c'
    rw [hzero] at hsame
    simpa using hsame.symm
  · rintro rfl
    rw [raised, Int32.sub_self]
    rfl

theorem raised_lt (c c' : Int32) : raised c c' < 2 ^ 32 := UInt32.toNat_lt _

/-- A counter that goes less far than it has values is back where it was only if it stood still. -/
theorem add_ofNat_eq_iff (hk : k < 2 ^ 32) : c + .ofNat k = c ↔ k = 0 := by
  constructor
  · intro heq
    have hzero : Int32.ofNat k = 0 := by simpa using heq
    have hbits := congrArg (fun i : Int32 => i.toBitVec.toNat) hzero
    simp at hbits
    omega
  · rintro rfl
    simp

end Version

namespace Members

def applyAll (m : Members) (diffs : List Diff) : Members := diffs.foldl apply m

theorem applyAll_append (m : Members) (diffs : List Diff) (diff : Diff) :
    m.applyAll (diffs ++ [diff]) = (m.applyAll diffs).apply diff := by
  rw [applyAll, List.foldl_append, applyAll]
  rfl

end Members

/-! ### Records of polls -/

/-- What is noted of an observer. -/
structure PollRecord where
  /-- The membership when the observer was made. -/
  start : Members
  /-- The membership at the last positive poll, or when the observer was made. -/
  base : Members
  /-- Whether a step since the last poll has changed the membership. -/
  changed : Prop := False
  /-- How far the steps since the last poll have raised the counters, at most as often as they have
  bumped them. -/
  nodeBumps : Nat := 0
  edgeBumps : Nat := 0
  /-- If the last poll was positive and its diff is not taken: what it is compared with. -/
  due : Option Members := none
  /-- The diffs that were taken, unless one was missed. -/
  taken : Option (List Diff) := some []
  /-- Whether the observer, or its view, was destroyed. -/
  ended : Prop := False

namespace PollRecord

/-- A step from one version and membership to another; none are there once the view is gone. -/
def pass (record : PollRecord) : Option (Version × Members) → Option (Version × Members) → PollRecord
  | some (v, m), some (v', m') =>
    { record with
      changed := record.changed ∨ m' ≠ m
      nodeBumps := record.nodeBumps + Version.raised v.node v'.node
      edgeBumps := record.edgeBumps + Version.raised v.edge v'.edge }
  | none, some _ => record
  | _, none => { record with ended := True }

def polled (record : PollRecord) (now : Members) : Except Fault Bool → PollRecord
  | .ok answer =>
    { record with
      base := if answer then now else record.base
      changed := False
      nodeBumps := 0
      edgeBumps := 0
      due := if answer then some record.base else none
      taken := if record.due.isSome then none else record.taken }
  | .error _ => record

def took (record : PollRecord) : Except Fault Diff → PollRecord
  | .ok diff => { record with due := none, taken := record.taken.map (· ++ [diff]) }
  | .error _ => record

def finished (record : PollRecord) : Except Fault Unit → PollRecord
  | .ok _ => { record with ended := True }
  | .error _ => record

/-! ### The diffs of a record -/

variable {record : PollRecord} {found found' : Option (Version × Members)}

/-- The diffs that were taken lead from the first membership to the last that was seen, or, while a
diff is due, to the one before. -/
def Replayed (record : PollRecord) : Prop :=
  ∀ diffs, record.taken = some diffs → record.start.applyAll diffs = record.due.getD record.base

theorem Replayed.pass (h : record.Replayed) : (record.pass found found').Replayed := by
  cases found <;> cases found' <;> exact h

theorem Replayed.polled (h : record.Replayed) (now : Members) (answer : Except Fault Bool) :
    (record.polled now answer).Replayed := by
  cases answer with
  | error fault => exact h
  | ok answer =>
    intro diffs hdiffs
    have htaken : (if record.due.isSome then none else record.taken) = some diffs := hdiffs
    cases hdue : record.due with
    | some before =>
      -- The diff that was due is lost, so from here on there is no chain of diffs.
      rw [hdue, Option.isSome_some, if_pos rfl] at htaken
      cases htaken
    | none =>
      rw [hdue, Option.isSome_none, if_neg Bool.false_ne_true] at htaken
      have hreplayed := h diffs htaken
      rw [hdue] at hreplayed
      cases answer <;> exact hreplayed

theorem Replayed.took (h : record.Replayed) {diff : Diff} {before : Members}
    (hdue : record.due = some before) (hbetween : diff.Between before record.base) :
    (record.took (.ok diff)).Replayed := by
  intro diffs hdiffs
  obtain ⟨earlier, hearlier, rfl⟩ := Option.map_eq_some_iff.mp hdiffs
  have hreplayed : record.start.applyAll earlier = before := by
    rw [h earlier hearlier, hdue, Option.getD_some]
  calc record.start.applyAll (earlier ++ [diff])
      = (record.start.applyAll earlier).apply diff := Members.applyAll_append _ _ _
    _ = before.apply diff := by rw [hreplayed]
    _ = record.base := hbetween.apply_eq

end PollRecord

namespace GraphSpace

/-- The version and the membership that there are for an observer. -/
def found? (space : GraphSpace) (o : Observer) : Option (Version × Members) :=
  (space.session? o.graphHandle).bind fun s =>
    (s.versionOf o.view).toOption.map fun version => (version, s.members o.view)

def membersFor (space : GraphSpace) (o : Observer) : Members :=
  ((space.found? o).map (·.2)).getD { nodes := ∅, edges := ∅ }

/-- A run of the graphs as one observer lives through it, with the record of its polls. Graphs are opened and
called on in any order, which may be to make, poll and detach other observers; this one is polled,
its diffs are taken and it is destroyed at any time; and between all that, things happen that touch
no store and no home, nor what the observer remembers. -/
inductive Observed (o : Observer) : GraphSpace → PollRecord → Prop where
  | created (space space' : GraphSpace) (g : Graph) (view : Option View) (keepsDiff : Bool)
    (h : History space)
    (hflat : ∀ s, space.session? g = some s → s.Flat view)
    (hmade : Observer.create g view keepsDiff space = (.ok o, space')) :
    Observed o space' { start := space'.membersFor o, base := space'.membersFor o }
  | opened (space : GraphSpace) (record : PollRecord) (config : Config) (h : Observed o space record) :
    Observed o (Graph.open_ config space).2
      (record.pass (space.found? o) ((Graph.open_ config space).2.found? o))
  | called (space : GraphSpace) (record : PollRecord) (g : Graph) (command : Command)
    (h : Observed o space record) (hpoll : command ≠ .poll o)
    (hdetach : command ≠ .detachObserver o) :
    Observed o (g.run command.act space).2
      (record.pass (space.found? o) ((g.run command.act space).2.found? o))
  | elsewhere (space space' : GraphSpace) (record : PollRecord) (h : Observed o space record)
    (hstores : ∀ g, (space'.session? g).map (·.store) = (space.session? g).map (·.store))
    (hnodes : space'.catalog.nodeHomes = space.catalog.nodeHomes)
    (hedges : space'.catalog.edgeHomes = space.catalog.edgeHomes)
    (hviews : space'.catalog.destroyedViews = space.catalog.destroyedViews)
    (hwatch : space'.catalog.watch o = space.catalog.watch o)
    (hfresh : space.catalog.fresh ≤ space'.catalog.fresh) :
    Observed o space' (record.pass (space.found? o) (space'.found? o))
  | polled (space space' : GraphSpace) (record : PollRecord) (answer : Except Fault Bool)
    (h : Observed o space record) (hpolled : o.hasChanged space = (answer, space')) :
    Observed o space' (record.polled (space.membersFor o) answer)
  | took (space space' : GraphSpace) (record : PollRecord) (answer : Except Fault Diff)
    (h : Observed o space record) (htook : o.takeDiff space = (answer, space')) :
    Observed o space' (record.took answer)
  | destroyed (space space' : GraphSpace) (record : PollRecord) (answer : Except Fault Unit)
    (h : Observed o space record) (hdestroyed : o.destroy space = (answer, space')) :
    Observed o space' (record.finished answer)

variable {o other : Observer} {space space' : GraphSpace} {record : PollRecord}

/-! ### Calls of the observer -/

theorem watch_apply (o : Observer) (space : GraphSpace) :
    o.watch space = (.ok (space.catalog.watch o), space) := rfl

theorem poll_eq (o : Observer) : o.poll = o.graphHandle.during .read (Session.poll o) := rfl

theorem detach_eq (o : Observer) :
    o.detach = o.graphHandle.during .write (.change (·.detachObserver o)) := rfl

theorem hasChanged_apply (o : Observer) (space : GraphSpace) :
    o.hasChanged space = if (space.catalog.watch o).destroyed
      then (.error .observerDestroyed, space)
      else o.poll space := by
  unfold Observer.hasChanged
  rw [bind_apply, watch_apply]
  simp only
  split <;> rfl

theorem takeDiff_apply (o : Observer) (space : GraphSpace) :
    o.takeDiff space = if (space.catalog.watch o).destroyed
      then (.error .observerDestroyed, space)
      else if o.keepsDiff then
        match (space.catalog.watch o).pending with
        | none => (.error .diffWithoutChange, space)
        | some diff => (.ok diff, { space with
            catalog := space.catalog.modifyWatch o fun watch => { watch with pending := none } })
      else (.error .diffNotKept, space) := by
  unfold Observer.takeDiff
  rw [bind_apply, watch_apply]
  simp only
  cases (space.catalog.watch o).destroyed with
  | true => rfl
  | false =>
    cases o.keepsDiff with
    | false => rfl
    | true =>
      simp only [Bool.false_eq_true, if_false, Bool.not_true, if_true]
      cases (space.catalog.watch o).pending <;> rfl

theorem destroy_apply (o : Observer) (space : GraphSpace) :
    o.destroy space = if (space.catalog.watch o).destroyed
      then (.error .observerAlreadyDestroyed, space)
      else if (space.shared? o.graphHandle).isSome then
        match o.detach space with
        | (.ok _, space) => (.ok (), { space with catalog := space.catalog.destroyObserver o })
        | (.error fault, space) => (.error fault, space)
      else (.ok (), { space with catalog := space.catalog.destroyObserver o }) := by
  unfold Observer.destroy
  rw [bind_apply, watch_apply]
  simp only
  cases (space.catalog.watch o).destroyed with
  | true => rfl
  | false =>
    rw [if_neg Bool.false_ne_true, if_neg Bool.false_ne_true, bind_apply]
    change (if (space.shared? o.graphHandle).isSome then _ else _ : GraphAction Unit) space = _
    split
    · rw [bind_apply]
      rcases o.detach space with ⟨answer, left⟩
      cases answer <;> rfl
    · rfl

/-! ### Every run has a history -/

theorem History.onCatalog {catalog : Catalog} (h : History space)
    (hnodes : catalog.nodeHomes = space.catalog.nodeHomes)
    (hedges : catalog.edgeHomes = space.catalog.edgeHomes) : History { space with catalog } := by
  refine .elsewhere space _ h (fun g => ?_) hnodes hedges
  unfold session?
  rw [Option.map_map, Option.map_map]
  rfl

theorem History.hasChanged (h : History space) (o : Observer) :
    History (o.hasChanged space).2 := by
  rw [hasChanged_apply]
  split
  · exact h
  · exact h.during o.graphHandle .read (.poll o)

theorem History.takeDiff (h : History space) (o : Observer) : History (o.takeDiff space).2 := by
  rw [takeDiff_apply]
  split
  · exact h
  · split
    · split
      · exact h
      · exact h.onCatalog rfl rfl
    · exact h

theorem History.destroy (h : History space) (o : Observer) : History (o.destroy space).2 := by
  have hdetached : History (o.detach space).2 := h.during o.graphHandle .write (.detachObserver o)
  rw [destroy_apply]
  split
  · exact h
  · split
    · split
      · next heq =>
        rw [heq] at hdetached
        exact hdetached.onCatalog rfl rfl
      · next heq =>
        rw [heq] at hdetached
        exact hdetached
    · exact h.onCatalog rfl rfl

theorem Observed.history (h : Observed o space record) : History space := by
  induction h with
  | created space space' g view keepsDiff h _ hmade =>
    have hdone : History (Observer.create g view keepsDiff space).2 :=
      h.during g .write (.createObserver view keepsDiff)
    rwa [hmade] at hdone
  | opened space record config _ ih => exact .opened space config ih
  | called space record g command _ _ _ ih => exact .called space g command ih
  | elsewhere space space' record _ hstores hnodes hedges _ _ _ ih =>
    exact .elsewhere space space' ih hstores hnodes hedges
  | polled space space' record answer _ hpolled ih =>
    have hdone := ih.hasChanged o
    rwa [hpolled] at hdone
  | took space space' record answer _ htook ih =>
    have hdone := ih.takeDiff o
    rwa [htook] at hdone
  | destroyed space space' record answer _ hdestroyed ih =>
    have hdone := ih.destroy o
    rwa [hdestroyed] at hdone

/-! ### Other observers

What other observers do belongs to the run, so there may be any number of them. -/

theorem Observed.during (h : Observed o space record) (g : Graph) (mode : Lock.Mode)
    (command : Command) (hpoll : command ≠ .poll o) (hdetach : command ≠ .detachObserver o) :
    ∃ record', Observed o (g.during mode command.act space).2 record' := by
  rcases during_cases space g mode command.act with ⟨fault, hrefused⟩ | ⟨_, hmade⟩
  · rw [hrefused]
    exact ⟨record, h⟩
  · have hcatalog := hmade.sameSessions.catalog
    refine ⟨_, .elsewhere _ _ _ (.called space record g command h hpoll hdetach)
      (fun g' => congrArg _ (hmade.sameSessions.session? g')) ?_ ?_ ?_ ?_ ?_⟩
    all_goals rw [hcatalog]

theorem Observed.onCatalog {catalog : Catalog} (h : Observed o space record)
    (hnodes : catalog.nodeHomes = space.catalog.nodeHomes)
    (hedges : catalog.edgeHomes = space.catalog.edgeHomes)
    (hviews : catalog.destroyedViews = space.catalog.destroyedViews)
    (hwatch : catalog.watch o = space.catalog.watch o)
    (hfresh : space.catalog.fresh ≤ catalog.fresh) :
    ∃ record', Observed o { space with catalog } record' := by
  refine ⟨_, .elsewhere space _ record h (fun g => ?_) hnodes hedges hviews hwatch hfresh⟩
  unfold session?
  rw [Option.map_map, Option.map_map]
  rfl

theorem Observed.other_hasChanged (h : Observed o space record) (hother : other ≠ o) :
    ∃ record', Observed o (other.hasChanged space).2 record' := by
  rw [hasChanged_apply]
  split
  · exact ⟨record, h⟩
  · apply h.during other.graphHandle .read (.poll other)
    · rintro ⟨⟩
      exact hother rfl
    · rintro ⟨⟩

theorem Observed.other_takeDiff (h : Observed o space record) (hother : other ≠ o) :
    ∃ record', Observed o (other.takeDiff space).2 record' := by
  rw [takeDiff_apply]
  split
  · exact ⟨record, h⟩
  · split
    · split
      · exact ⟨record, h⟩
      · refine h.onCatalog rfl rfl rfl ?_ le_rfl
        rw [Catalog.watch_modifyWatch, if_neg hother.symm]
    · exact ⟨record, h⟩

theorem Observed.other_destroy (h : Observed o space record) (hother : other ≠ o) :
    ∃ record', Observed o (other.destroy space).2 record' := by
  have hmarked : ∀ {space' : GraphSpace} {record' : PollRecord}, Observed o space' record' →
      ∃ record'',
        Observed o { space' with catalog := space'.catalog.destroyObserver other } record'' := by
    intro space' record' h'
    refine h'.onCatalog rfl rfl rfl ?_ le_rfl
    rw [Catalog.destroyObserver, Catalog.watch_modifyWatch, if_neg hother.symm]
  have hdetached : ∃ record', Observed o (other.detach space).2 record' := by
    apply h.during other.graphHandle .write (.detachObserver other)
    · rintro ⟨⟩
    · rintro ⟨⟩
      exact hother rfl
  rw [destroy_apply]
  cases (space.catalog.watch other).destroyed with
  | true => exact ⟨record, h⟩
  | false =>
    cases (space.shared? other.graphHandle).isSome with
    | false => exact hmarked h
    | true =>
      obtain ⟨record', h'⟩ := hdetached
      generalize other.detach space = done at h' ⊢
      obtain ⟨answer, left⟩ := done
      cases answer with
      | ok _ => exact hmarked h'
      | error fault => exact ⟨record', h'⟩

end GraphSpace

end PropertyGraph

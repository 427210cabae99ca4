import PropertyGraph.Proofs.Observing.Agreement
import PropertyGraph.Proofs.Observing.PollRecords

/-!
# The observer protocol

Whatever happens to the graphs, what an observer remembers accords with the record of its polls. So a poll is
positive exactly if a step since the last one has changed the membership, provided that no counter
went all the way round; a diff says what has come and gone between the positive polls; and it is
given once for each of them.
-/

namespace PropertyGraph

open Session

namespace PollRecord

variable {record : PollRecord} {found found' : Option (Version × Members)}

theorem base_pass : (record.pass found found').base = record.base := by
  cases found <;> cases found' <;> rfl

theorem ended_pass (h : record.ended) : (record.pass found found').ended := by
  cases found <;> cases found'
  case none.some => exact h
  case some.some => exact h
  all_goals trivial

end PollRecord

namespace GraphSpace

variable {o : Observer} {space space' : GraphSpace} {record : PollRecord} {g : Graph} {s s' : Session}
  {order : List Nat}

/-! ### Who is attached in all graphs -/

theorem History.wellAttached (h : History space) (hs : space.session? g = some s) : s.WellAttached := by
  induction h generalizing g s with
  | empty =>
    rw [session?_of_size_le (Nat.zero_le _)] at hs
    cases hs
  | opened space config _ ih =>
    rcases open_cases space config with ⟨fault, hopen⟩ | ⟨store, hopen, _, hsession⟩
    · rw [hopen] at hs
      exact ih hs
    · rw [hsession] at hs
      split at hs
      · cases hs
        exact wellAttached_of_open? hopen
      · exact ih hs
  | called space g' command h ih =>
    rcases run_cases space g' command.act with
      ⟨_, hsame⟩ | ⟨before, hbefore, _, hsession⟩
    · rw [hsame] at hs
      exact ih hs
    · rw [hsession] at hs
      split at hs
      · cases hs
        obtain ⟨order, hconsistent⟩ := (h.orderly.settled g' before hbefore).consistent
        exact (observerEffect_perform hconsistent command).wellAttached (ih hbefore)
      · obtain ⟨other, hother, rfl⟩ := Option.map_eq_some_iff.mp hs
        exact WellAttached.of_store (s := other) (ih hother) rfl
  | elsewhere space space' _ hstores _ _ ih =>
    have hstore := hstores g
    rw [hs, Option.map_some, eq_comm, Option.map_eq_some_iff] at hstore
    obtain ⟨before, hbefore, hstore⟩ := hstore
    exact (ih hbefore).of_store hstore.symm

/-! ### What an observer remembers -/

/-- An observer that can be polled remembers the version of its last poll, and, if it keeps diffs,
the membership at its last positive poll and what is due. -/
structure Remembers (o : Observer) (s : Session) (record : PollRecord) : Prop where
  attends : Attends o s
  awake : (s.catalog.watch o).destroyed = false
  counted : ∃ version, s.versionOf o.view = .ok version ∧
    version.node = (s.catalog.watch o).last.node + .ofNat record.nodeBumps ∧
    version.edge = (s.catalog.watch o).last.edge + .ofNat record.edgeBumps
  changed_iff : record.changed ↔ record.nodeBumps ≠ 0 ∨ record.edgeBumps ≠ 0
  snapshot : o.keepsDiff = true → (s.catalog.watch o).snapshot.Shows record.base
  pending : o.keepsDiff = true → ((s.catalog.watch o).pending = none ∧ record.due = none) ∨
    ∃ diff before, (s.catalog.watch o).pending = some diff ∧ record.due = some before ∧
      diff.Between before record.base

/-- What an observer remembers accords with the record of its polls. -/
structure Accords (o : Observer) (space : GraphSpace) (record : PollRecord) : Prop where
  serial_lt : o.serial < space.catalog.fresh
  distinct : record.base.Distinct
  replayed : record.Replayed
  state : (record.ended ∧ (space.catalog.watch o).destroyed = true) ∨
    (¬ record.ended ∧ ∃ s, space.session? o.graphHandle = some s ∧ Remembers o s record)

theorem found?_of_session? {version : Version} (hs : space.session? o.graphHandle = some s)
    (hversion : s.versionOf o.view = .ok version) :
    space.found? o = some (version, s.members o.view) := by
  rw [found?, hs, Option.bind_some, hversion]
  rfl

/-- A step that leaves an observer what it remembers, and counts exactly if it changes something. -/
structure Undisturbed (o : Observer) (s s' : Session) : Prop where
  watch : s'.catalog.watch o = s.catalog.watch o
  attends : Attends o s'
  counted : ∀ version version', s.versionOf o.view = .ok version →
    s'.versionOf o.view = .ok version' → (version' = version ↔ s'.members o.view = s.members o.view)

theorem Undisturbed.of_sameFor (h : SameFor o.view s s') (ho : Attends o s)
    (hwatch : s'.catalog.watch o = s.catalog.watch o) : Undisturbed o s s' where
  watch := hwatch
  attends := h.attends ho
  counted := by
    intro version version' hversion hversion'
    rw [h.versionOf_eq, hversion, Except.ok.injEq] at hversion'
    exact iff_of_true hversion'.symm h.members_eq

theorem Remembers.pass (h : Remembers o s record) (hs : space.session? o.graphHandle = some s)
    (hs' : space'.session? o.graphHandle = some s') (hstep : Undisturbed o s s') :
    Remembers o s' (record.pass (space.found? o) (space'.found? o)) ∧
      ((record.pass (space.found? o) (space'.found? o)).ended ↔ record.ended) := by
  obtain ⟨version, hversion, hnode, hedge⟩ := h.counted
  obtain ⟨version', hversion'⟩ := hstep.attends.exists_version
  have hcounted := hstep.counted version version' hversion hversion'
  rw [found?_of_session? hs hversion, found?_of_session? hs' hversion']
  refine ⟨?_, Iff.rfl⟩
  constructor
  case attends => exact hstep.attends
  case awake => rw [hstep.watch, h.awake]
  case counted =>
    refine ⟨version', hversion', ?_, ?_⟩
    · rw [hstep.watch]
      exact Version.eq_add_raised hnode version'.node
    · rw [hstep.watch]
      exact Version.eq_add_raised hedge version'.edge
  case changed_iff =>
    change record.changed ∨ s'.members o.view ≠ s.members o.view ↔
      record.nodeBumps + Version.raised version.node version'.node ≠ 0 ∨
        record.edgeBumps + Version.raised version.edge version'.edge ≠ 0
    have hraised : s'.members o.view ≠ s.members o.view ↔
        Version.raised version.node version'.node ≠ 0 ∨
          Version.raised version.edge version'.edge ≠ 0 := by
      rw [ne_eq, ← hcounted, Version.eq_iff, ne_eq, ne_eq, Version.raised_eq_zero_iff,
        Version.raised_eq_zero_iff]
      tauto
    rw [h.changed_iff, hraised]
    omega
  case snapshot =>
    rw [hstep.watch]
    exact h.snapshot
  case pending =>
    rw [hstep.watch]
    exact h.pending

/-- A step leaves an observer undisturbed, or it destroys it together with its view. -/
theorem Accords.pass (h : Accords o space record)
    (hfresh : space.catalog.fresh ≤ space'.catalog.fresh)
    (hgone : (space.catalog.watch o).destroyed = true →
      (space'.catalog.watch o).destroyed = true)
    (hstep : ∀ s, space.session? o.graphHandle = some s → Attends o s →
      (∃ s', space'.session? o.graphHandle = some s' ∧ Undisturbed o s s') ∨
        (space'.catalog.watch o).destroyed = true ∧ space'.found? o = none) :
    Accords o space' (record.pass (space.found? o) (space'.found? o)) := by
  refine ⟨Nat.lt_of_lt_of_le h.serial_lt hfresh, ?_, h.replayed.pass, ?_⟩
  · rw [PollRecord.base_pass]
    exact h.distinct
  · rcases h.state with ⟨hended, hdestroyed⟩ | ⟨hopen, s, hs, hremembers⟩
    · exact .inl ⟨PollRecord.ended_pass hended, hgone hdestroyed⟩
    · rcases hstep s hs hremembers.attends with ⟨s', hs', hundisturbed⟩ | ⟨hdestroyed, hnone⟩
      · obtain ⟨hremembers', hended⟩ := hremembers.pass hs hs' hundisturbed
        exact .inr ⟨hended.not.mpr hopen, s', hs', hremembers'⟩
      · refine .inl ⟨?_, hdestroyed⟩
        rw [hnone]
        cases space.found? o <;> trivial

/-! ### Steps of which the observer is not told -/

theorem session?_onCatalog (hs : space.session? g = some s) (catalog : Catalog) :
    ({ space with catalog } : GraphSpace).session? g = some { s with catalog } := by
  obtain ⟨shared, hshared, rfl⟩ := Option.map_eq_some_iff.mp hs
  exact Option.map_eq_some_iff.mpr ⟨shared, hshared, rfl⟩

theorem Accords.opened (h : Accords o space record) (config : Config) :
    Accords o (Graph.open_ config space).2
      (record.pass (space.found? o) ((Graph.open_ config space).2.found? o)) := by
  rcases open_cases space config with ⟨fault, hopen⟩ | ⟨store, _, hcatalog, hsession⟩
  · rw [hopen]
    exact h.pass le_rfl id fun s hs ho =>
      .inl ⟨s, hs, .of_sameFor ⟨rfl, fun _ _ => rfl⟩ ho rfl⟩
  · refine h.pass ?_ ?_ fun s hs ho => .inl ⟨s, ?_, .of_sameFor ⟨rfl, fun _ _ => rfl⟩ ho rfl⟩
    · rw [hcatalog]
    · rw [hcatalog]
      exact id
    · rw [hsession, if_neg, hs]
      intro htoken
      rw [session?_of_size_le (Nat.le_of_eq htoken.symm)] at hs
      cases hs

theorem found?_eq_none {view : View} (hs : space.session? o.graphHandle = some s)
    (hview : o.view = some view) (hgone : s.observersAt view.slot = none) : space.found? o = none := by
  rw [found?, hs, Option.bind_some, hview]
  cases hversion : s.versionOf (some view) with
  | error fault => rfl
  | ok version =>
    obtain ⟨r, hr, _⟩ := viewRecord_of_versionOf hversion
    rw [observersAt_of_viewRecord hr] at hgone
    cases hgone

theorem undisturbed_perform {command : Command} (hs : s.Consistent order) (hattached : s.WellAttached)
    (hserial : o.serial < s.catalog.fresh) (hpoll : command ≠ .poll o)
    (hdetach : command ≠ .detachObserver o) (ho : Attends o s) :
    Undisturbed o s (command.perform s) ∨ ((command.perform s).catalog.watch o).destroyed = true ∧
      ∃ view, o.view = some view ∧ (command.perform s).observersAt view.slot = none := by
  rcases (observerEffect_perform hs command).attends_cases hpoll hdetach hserial hattached ho with
    ⟨hwatch, ho'⟩ | hgone
  · exact .inl ⟨hwatch, ho', fun _ _ hversion hversion' =>
      versionOf_perform_iff hs command ho.flat ho'.flat hversion hversion'⟩
  · exact .inr hgone

theorem undisturbed_elsewhere {t : Session} {command : Command} (ht : t.Consistent order)
    (hattached : t.WellAttached) (hserial : o.serial < t.catalog.fresh) (hpoll : command ≠ .poll o)
    (hcatalog : s.catalog = t.catalog) (hown : s.store.token = o.graph)
    (hother : o.graph ≠ t.store.token) (ho : Attends o s) :
    Undisturbed o s { s with catalog := (command.perform t).catalog } := by
  obtain ⟨hwatch, hdestroyed⟩ :=
    (observerEffect_perform ht command).elsewhere hpoll hserial hattached hother
  refine .of_sameFor ⟨rfl, fun view hview => ?_⟩ ho ?_
  · have hstore : view.store ≠ t.store.token := by
      rw [(ho view hview).1, hown]
      exact hother
    rw [hcatalog]
    exact hdestroyed view hstore
  · rw [hcatalog]
    exact hwatch

theorem Accords.called (h : Accords o space record) (hh : History space) (g : Graph)
    (command : Command) (hpoll : command ≠ .poll o) (hdetach : command ≠ .detachObserver o) :
    Accords o (g.run command.act space).2
      (record.pass (space.found? o) ((g.run command.act space).2.found? o)) := by
  rcases run_cases space g command.act with
    ⟨_, hsame⟩ | ⟨t, ht, hcatalog, hsession⟩
  · rw [hsame]
    exact h.pass le_rfl id fun s hs ho =>
      .inl ⟨s, hs, .of_sameFor ⟨rfl, fun _ _ => rfl⟩ ho rfl⟩
  · change _ = (command.perform t).catalog at hcatalog
    have hsettled := hh.orderly.settled g t ht
    obtain ⟨order, hconsistent⟩ := hsettled.consistent
    have heffect := observerEffect_perform hconsistent command
    have hattached := hh.wellAttached ht
    have hserial : o.serial < t.catalog.fresh := by
      rw [catalog_of_session? ht]
      exact h.serial_lt
    refine h.pass ?_ ?_ fun s hs ho => ?_
    · rw [hcatalog, ← catalog_of_session? ht]
      exact heffect.fresh_le
    · rw [hcatalog, ← catalog_of_session? ht]
      exact heffect.destroyed_of hpoll hserial
    · have hsession' := hsession o.graphHandle
      by_cases hown : o.graphHandle = g
      · rw [if_pos hown] at hsession'
        subst hown
        rw [ht, Option.some.injEq] at hs
        subst hs
        rcases undisturbed_perform hconsistent hattached hserial hpoll hdetach ho with
          hundisturbed | ⟨hdestroyed, view, hview, hgone⟩
        · exact .inl ⟨_, hsession', hundisturbed⟩
        · rw [hcatalog]
          exact .inr ⟨hdestroyed, found?_eq_none hsession' hview hgone⟩
      · -- The other graph has the same catalog, where the call might have touched this observer.
        rw [if_neg hown, hs] at hsession'
        have hgraph : o.graph ≠ t.store.token := by
          rw [hsettled.token]
          exact fun htoken => hown (congrArg Graph.mk htoken)
        refine .inl ⟨_, hsession', undisturbed_elsewhere hconsistent hattached hserial hpoll ?_
          (hh.orderly.settled _ s hs).token hgraph ho⟩
        rw [catalog_of_session? hs, catalog_of_session? ht]

theorem Accords.elsewhere (h : Accords o space record)
    (hstores : ∀ g, (space'.session? g).map (·.store) = (space.session? g).map (·.store))
    (hviews : space'.catalog.destroyedViews = space.catalog.destroyedViews)
    (hwatch : space'.catalog.watch o = space.catalog.watch o)
    (hfresh : space.catalog.fresh ≤ space'.catalog.fresh) :
    Accords o space' (record.pass (space.found? o) (space'.found? o)) := by
  refine h.pass hfresh (by rw [hwatch]; exact id) fun s hs ho => ?_
  have hstore := hstores o.graphHandle
  rw [hs, Option.map_some, Option.map_eq_some_iff] at hstore
  obtain ⟨s', hs', hstore⟩ := hstore
  refine .inl ⟨s', hs', .of_sameFor ⟨hstore, fun view _ => ?_⟩ ho ?_⟩
  · rw [catalog_of_session? hs', catalog_of_session? hs, Catalog.isDestroyed, hviews,
      Catalog.isDestroyed]
  · rw [catalog_of_session? hs', catalog_of_session? hs, hwatch]

/-! ### Calls of the observer -/

theorem during_run_cases {α : Type} (space : GraphSpace) (g : Graph) (mode : Lock.Mode)
    (action : Action α) :
    (∃ fault, g.during mode action space = (.error fault, space)) ∨
    ∃ s, space.session? g = some s ∧ (g.during mode action space).1 = (action s).1 ∧
      (g.during mode action space).2.session? g = some (action s).2 ∧
      (g.during mode action space).2.catalog = (action s).2.catalog := by
  rcases during_cases space g mode action with hrefused | ⟨hanswer, hmade⟩
  · exact .inl hrefused
  · rcases run_cases space g action with ⟨hnone, _⟩ | ⟨s, hs, hcatalog, _⟩
    · exact .inl ⟨_, during_of_gone (Option.map_eq_none_iff.mp hnone) mode action⟩
    · refine .inr ⟨s, hs, hanswer.trans (run_fst hs action), ?_,
        hmade.sameSessions.catalog.trans hcatalog⟩
      exact (hmade.sameSessions.session? g).trans (session?_run hs action)

theorem Remembers.created {version : Version} (hs : s.Consistent order)
    (hcreates : CreatesObserver s s' o version) (hflat : s.Flat o.view) (start : Members) :
    Remembers o s' { start, base := s.members o.view } := by
  obtain ⟨snapshot, hsnapshot, hcatalog⟩ := hcreates.catalog
  have hwatch : s'.catalog.watch o = { last := version, snapshot } := by
    rw [hcatalog, Catalog.watch_modifyWatch, if_pos rfl]
  constructor
  case attends => exact hcreates.attends hflat
  case awake => rw [hwatch]
  case counted =>
    rw [hwatch]
    exact ⟨version, hcreates.versionOf_eq', (Int32.add_zero _).symm, (Int32.add_zero _).symm⟩
  case changed_iff => exact iff_of_false id (not_or.mpr ⟨not_not_intro rfl, not_not_intro rfl⟩)
  case snapshot =>
    intro hkeeps
    rw [hwatch]
    exact snapshot_shows hs (hsnapshot hkeeps)
  case pending =>
    intro _
    rw [hwatch]
    exact .inl ⟨rfl, rfl⟩

theorem Accords.created (hh : History space) {view : Option View} {keepsDiff : Bool}
    (hflat : ∀ s, space.session? g = some s → s.Flat view)
    (hmade : Observer.create g view keepsDiff space = (.ok o, space')) :
    Accords o space' { start := space'.membersFor o, base := space'.membersFor o } := by
  have hdone : g.during .write (createObserver view keepsDiff) space = (.ok o, space') := hmade
  rcases during_run_cases space g .write (createObserver view keepsDiff) with
    ⟨fault, hrefused⟩ | ⟨s, hs, hanswer, hsession, hcatalog⟩
  · rw [hrefused] at hdone
    cases hdone
  · rw [hdone] at hanswer hsession hcatalog
    have hsettled := hh.orderly.settled g s hs
    obtain ⟨order, hconsistent⟩ := hsettled.consistent
    rcases createObserver_cases view keepsDiff s with
      ⟨fault, hrefused⟩ | ⟨s', version, hcreated, hcreates⟩
    · rw [hrefused] at hanswer
      cases hanswer
    · rw [hcreated] at hanswer hsession hcatalog
      change Except.ok o = Except.ok (s.nextObserver view keepsDiff) at hanswer
      rw [Except.ok.injEq] at hanswer
      have hgraph : o.graphHandle = g := by
        rw [hanswer]
        exact congrArg Graph.mk hsettled.token
      have hview : o.view = view := by rw [hanswer]; rfl
      rw [← hanswer] at hcreates
      rw [← hview] at hflat
      have hmembers : s'.members o.view = s.members o.view := by
        refine hcreates.members_eq hconsistent (hflat s hs) ?_
        rw [hanswer]
        exact congrArg Prod.snd hcreated
      have hfound : space'.membersFor o = s.members o.view := by
        rw [membersFor, found?_of_session? (hgraph ▸ hsession) hcreates.versionOf_eq', ← hmembers]
        rfl
      rw [hfound]
      refine ⟨?_, hsettled.distinct o.view, fun diffs hdiffs => ?_, .inr ⟨id, s', hgraph ▸ hsession,
        .created hconsistent hcreates (hflat s hs) _⟩⟩
      · obtain ⟨snapshot, _, hcatalog'⟩ := hcreates.catalog
        rw [hcatalog, hcatalog', hanswer]
        exact Nat.lt_succ_self _
      · cases hdiffs
        rfl

theorem Remembers.polled {version : Version} {answer : Bool} (h : Remembers o s record)
    (hs : s.Consistent order) (hdistinct : record.base.Distinct)
    (hdistinct' : (s.members o.view).Distinct) (hversion : s.versionOf o.view = .ok version)
    (heditsWatch : EditsWatch o s s')
    (hpolled : Polled s o version (s.catalog.watch o) answer (s'.catalog.watch o)) :
    Remembers o s' (record.polled (s.members o.view) (.ok answer)) := by
  have hsame : SameFor o.view s s' := heditsWatch.sameFor
  have hlast : (s'.catalog.watch o).last = version ∧
      (s'.catalog.watch o).destroyed = (s.catalog.watch o).destroyed := by
    generalize s'.catalog.watch o = after at hpolled ⊢
    cases hpolled with
    | same heq => exact ⟨heq.symm, rfl⟩
    | changed _ _ => exact ⟨rfl, rfl⟩
    | compared _ _ _ _ => exact ⟨rfl, rfl⟩
  constructor
  case attends => exact hsame.attends h.attends
  case awake => exact hlast.2.trans h.awake
  case counted =>
    rw [hsame.versionOf_eq, hlast.1]
    exact ⟨version, hversion, (Int32.add_zero _).symm, (Int32.add_zero _).symm⟩
  case changed_iff => exact iff_of_false id (not_or.mpr ⟨not_not_intro rfl, not_not_intro rfl⟩)
  case snapshot =>
    intro hkeeps
    generalize s'.catalog.watch o = after at hpolled ⊢
    cases hpolled with
    | same _ => exact h.snapshot hkeeps
    | changed _ hnot => rw [hkeeps] at hnot; cases hnot
    | compared now _ _ hnow => exact snapshot_shows hs hnow
  case pending =>
    intro hkeeps
    generalize s'.catalog.watch o = after at hpolled ⊢
    cases hpolled with
    | same _ => exact .inl ⟨rfl, rfl⟩
    | changed _ hnot => rw [hkeeps] at hnot; cases hnot
    | compared now _ _ hnow =>
      refine .inr ⟨_, record.base, rfl, rfl, ?_⟩
      exact Diff.between_shows (h.snapshot hkeeps) (snapshot_shows hs hnow) hdistinct hdistinct'

theorem Accords.polled (h : Accords o space record) (hh : History space) :
    Accords o (o.hasChanged space).2
      (record.polled (space.membersFor o) (o.hasChanged space).1) := by
  rw [hasChanged_apply]
  rcases h.state with ⟨_, hdestroyed⟩ | ⟨hopen, s, hs, hremembers⟩
  · rw [if_pos hdestroyed]
    exact h
  · have hcatalog := catalog_of_session? hs
    rw [← hcatalog, hremembers.awake, if_neg Bool.false_ne_true, poll_eq]
    rcases during_run_cases space o.graphHandle .read (poll o) with
      ⟨fault, hrefused⟩ | ⟨t, ht, hanswer, hsession, hcatalog'⟩
    · -- A poll that the lock refuses is none, in the record and in what is remembered.
      rw [hrefused]
      exact h
    · rw [hs, Option.some.injEq] at ht
      subst ht
      obtain ⟨version, hversion, _⟩ := hremembers.counted
      rcases poll_cases o s with ⟨fault, hfault, _⟩ |
        ⟨version', answer, s', hversion', hpoll, heditsWatch, hpolled⟩
      · rw [hversion] at hfault
        cases hfault
      · rw [hversion, Except.ok.injEq] at hversion'
        subst hversion'
        have hsettled := hh.orderly.settled _ s hs
        obtain ⟨order, hconsistent⟩ := hsettled.consistent
        have hmembers : space.membersFor o = s.members o.view := by
          rw [membersFor, found?_of_session? hs hversion]
          rfl
        rw [hpoll] at hanswer hsession hcatalog'
        rw [hanswer, hmembers]
        refine ⟨?_, ?_, h.replayed.polled _ _, .inr ⟨hopen, s', hsession, ?_⟩⟩
        · rw [hcatalog', heditsWatch.fresh, hcatalog]
          exact h.serial_lt
        · cases answer
          · exact h.distinct
          · exact hsettled.distinct o.view
        · exact hremembers.polled hconsistent h.distinct (hsettled.distinct o.view) hversion heditsWatch
            hpolled

theorem Remembers.took (h : Remembers o s record) (heditsWatch : EditsWatch o s s')
    (hwatch : s'.catalog.watch o = { s.catalog.watch o with pending := none }) (diff : Diff) :
    Remembers o s' (record.took (.ok diff)) := by
  have hsame : SameFor o.view s s' := heditsWatch.sameFor
  obtain ⟨version, hversion, hcounted⟩ := h.counted
  constructor
  case attends => exact hsame.attends h.attends
  case awake =>
    rw [hwatch]
    exact h.awake
  case counted =>
    rw [hsame.versionOf_eq, hwatch]
    exact ⟨version, hversion, hcounted⟩
  case changed_iff => exact h.changed_iff
  case snapshot =>
    rw [hwatch]
    exact h.snapshot
  case pending =>
    intro _
    rw [hwatch]
    exact .inl ⟨rfl, rfl⟩

theorem Accords.took (h : Accords o space record) :
    Accords o (o.takeDiff space).2 (record.took (o.takeDiff space).1) := by
  rw [takeDiff_apply]
  rcases h.state with ⟨_, hdestroyed⟩ | ⟨hopen, s, hs, hremembers⟩
  · rw [if_pos hdestroyed]
    exact h
  · rw [← catalog_of_session? hs, hremembers.awake, if_neg Bool.false_ne_true]
    cases hkeeps : o.keepsDiff with
    | false =>
      rw [if_neg Bool.false_ne_true]
      exact h
    | true =>
      rw [if_pos rfl]
      rcases hremembers.pending hkeeps with ⟨hnone, _⟩ | ⟨diff, before, hpending, hdue, hbetween⟩
      · rw [hnone]
        exact h
      · rw [hpending]
        simp only
        have hs' := session?_onCatalog hs (s.catalog.modifyWatch o fun watch =>
          { watch with pending := none })
        refine ⟨?_, h.distinct, h.replayed.took hdue hbetween, .inr ⟨hopen, _, hs', ?_⟩⟩
        · have hserial := h.serial_lt
          rwa [← catalog_of_session? hs] at hserial
        · refine hremembers.took (editsWatch_modifyWatch s o _) ?_ diff
          refine (Catalog.watch_modifyWatch s.catalog o _ o).trans ?_
          rw [if_pos rfl]

theorem Accords.finished (h : Accords o space record) :
    Accords o (o.destroy space).2 (record.finished (o.destroy space).1) := by
  have hmarked : ∀ t : GraphSpace, space.catalog.fresh ≤ t.catalog.fresh →
      Accords o { t with catalog := t.catalog.destroyObserver o } { record with ended := True } := by
    intro t hfresh
    refine ⟨Nat.lt_of_lt_of_le h.serial_lt hfresh, h.distinct, h.replayed, .inl ⟨trivial, ?_⟩⟩
    change ((t.catalog.destroyObserver o).watch o).destroyed = true
    rw [Catalog.destroyObserver, Catalog.watch_modifyWatch, if_pos rfl]
  rw [destroy_apply]
  split
  · exact h
  · split
    · rw [detach_eq]
      rcases during_run_cases space o.graphHandle .write (.change (·.detachObserver o)) with
        ⟨fault, hrefused⟩ | ⟨s, hs, hanswer, _, hcatalog⟩
      · rw [hrefused]
        exact h
      · have hfresh : space.catalog.fresh ≤ (o.graphHandle.during .write
            (.change (·.detachObserver o)) space).2.catalog.fresh := by
          rw [hcatalog, ← catalog_of_session? hs]
          exact (observerEffect_detachObserver o s).fresh_le
        generalize o.graphHandle.during .write (.change (·.detachObserver o)) space = done
          at hanswer hfresh ⊢
        obtain ⟨answer, left⟩ := done
        change answer = .ok () at hanswer
        subst hanswer
        exact hmarked left hfresh
    · exact hmarked space le_rfl

theorem Observed.accords (h : Observed o space record) : Accords o space record := by
  induction h with
  | created space space' g view keepsDiff h hflat hmade => exact .created h hflat hmade
  | opened space record config _ ih => exact ih.opened config
  | called space record g command h hpoll hdetach ih =>
    exact ih.called h.history g command hpoll hdetach
  | elsewhere space space' record _ hstores _ _ hviews hwatch hfresh ih =>
    exact ih.elsewhere hstores hviews hwatch hfresh
  | polled space space' record answer h hpolled ih =>
    have hdone := ih.polled h.history
    rwa [hpolled] at hdone
  | took space space' record answer _ htook ih =>
    have hdone := ih.took
    rwa [htook] at hdone
  | destroyed space space' record answer _ hdestroyed ih =>
    have hdone := ih.finished
    rwa [hdestroyed] at hdone

/-! ### What is promised -/

/-- What an observer does, by the record of its polls. -/
structure ObserverContract (o : Observer) (space : GraphSpace) (record : PollRecord) : Prop where
  /-- Where the caller may read, a poll is answered unless the observer or its view is destroyed. -/
  answered : ∀ shared epoch lock, space.shared? o.graphHandle = some shared →
    shared.lock.enter caller .read = .granted epoch lock →
      ((∃ answer, (o.hasChanged space).1 = .ok answer) ↔ ¬ record.ended)
  /-- A poll is positive exactly if a step since the last one has changed the membership. -/
  positive_iff : record.nodeBumps < 2 ^ 32 → record.edgeBumps < 2 ^ 32 →
    ∀ answer, (o.hasChanged space).1 = .ok answer → (answer = true ↔ record.changed)
  /-- A diff is taken once after a positive poll, and before the next poll. -/
  takeable_iff : (∃ diff, (o.takeDiff space).1 = .ok diff) ↔
    o.keepsDiff = true ∧ ¬ record.ended ∧ record.due.isSome
  /-- A diff lists what came and went between the last positive poll and the one before. -/
  between : ∀ diff, (o.takeDiff space).1 = .ok diff →
    ∃ before, record.due = some before ∧ diff.Between before record.base
  /-- The diffs lead from the first membership to that of the last positive poll. -/
  replayed : ∀ diffs, record.taken = some diffs → record.due = none →
    record.start.applyAll diffs = record.base
  /-- Whatever another observer is asked for, the run goes on, so that all this is promised again. -/
  beside : ∀ other, other ≠ o → (∃ record', Observed o (other.hasChanged space).2 record') ∧
    (∃ record', Observed o (other.takeDiff space).2 record') ∧
    ∃ record', Observed o (other.destroy space).2 record'

/-- An observer that can be polled is answered, and rightly if no counter went all the way round. -/
theorem Remembers.exists_answer (h : Remembers o s record) : ∃ answer, (poll o s).1 = .ok answer ∧
    (record.nodeBumps < 2 ^ 32 → record.edgeBumps < 2 ^ 32 → (answer = true ↔ record.changed)) := by
  obtain ⟨version, hversion, hnode, hedge⟩ := h.counted
  rcases poll_cases o s with
    ⟨fault, hfault, _⟩ | ⟨version', answer, s', hversion', hpoll, _, hpolled⟩
  · rw [hversion] at hfault
    cases hfault
  · rw [hversion, Except.ok.injEq] at hversion'
    subst hversion'
    refine ⟨answer, by rw [hpoll], fun hnodes hedges => ?_⟩
    have hseen : version = (s.catalog.watch o).last ↔ ¬ record.changed := by
      rw [Version.eq_iff, hnode, hedge, Version.add_ofNat_eq_iff hnodes,
        Version.add_ofNat_eq_iff hedges, h.changed_iff]
      omega
    generalize s'.catalog.watch o = after at hpolled
    cases hpolled with
    | same heq => exact iff_of_false nofun (hseen.mp heq)
    | changed hne _ => exact iff_of_true rfl (not_not.mp (hseen.not.mp hne))
    | compared _ hne _ _ => exact iff_of_true rfl (not_not.mp (hseen.not.mp hne))

theorem Accords.poll_answered (h : Accords o space record) {shared : SharedGraph} {epoch : UInt64}
    {lock : Lock} (hshared : space.shared? o.graphHandle = some shared)
    (hlock : shared.lock.enter caller .read = .granted epoch lock) :
    (∃ answer, (o.hasChanged space).1 = .ok answer) ↔ ¬ record.ended := by
  rw [hasChanged_apply]
  rcases h.state with ⟨hended, hdestroyed⟩ | ⟨hopen, s, hs, hremembers⟩
  · rw [if_pos hdestroyed]
    exact iff_of_false (by rintro ⟨_, ⟨⟩⟩) (not_not_intro hended)
  · obtain ⟨answer, hanswer, _⟩ := hremembers.exists_answer
    rw [← catalog_of_session? hs, hremembers.awake, if_neg Bool.false_ne_true, poll_eq,
      during_of_granted hshared hlock]
    have hsession := session?_of_shared? hshared
    rw [hs, Option.some.injEq] at hsession
    rw [hsession] at hanswer
    exact iff_of_true ⟨answer, hanswer⟩ hopen

theorem Accords.poll_positive_iff (h : Accords o space record) (hnodes : record.nodeBumps < 2 ^ 32)
    (hedges : record.edgeBumps < 2 ^ 32) {answer : Bool}
    (hanswer : (o.hasChanged space).1 = .ok answer) : answer = true ↔ record.changed := by
  rw [hasChanged_apply] at hanswer
  rcases h.state with ⟨_, hdestroyed⟩ | ⟨_, s, hs, hremembers⟩
  · rw [if_pos hdestroyed] at hanswer
    cases hanswer
  · rw [← catalog_of_session? hs, hremembers.awake, if_neg Bool.false_ne_true, poll_eq] at hanswer
    rcases during_run_cases space o.graphHandle .read (poll o) with
      ⟨fault, hrefused⟩ | ⟨t, ht, hpoll, _⟩
    · rw [hrefused] at hanswer
      cases hanswer
    · rw [hs, Option.some.injEq] at ht
      subst ht
      obtain ⟨answer', hanswer', hright⟩ := hremembers.exists_answer
      rw [hpoll, hanswer', Except.ok.injEq] at hanswer
      rw [← hanswer]
      exact hright hnodes hedges

theorem Accords.takeDiff_cases (h : Accords o space record) :
    (∃ fault, (o.takeDiff space).1 = .error fault ∧
      ¬ (o.keepsDiff = true ∧ ¬ record.ended ∧ record.due.isSome)) ∨
    ∃ diff before, (o.takeDiff space).1 = .ok diff ∧ o.keepsDiff = true ∧ ¬ record.ended ∧
      record.due = some before ∧ diff.Between before record.base := by
  rw [takeDiff_apply]
  rcases h.state with ⟨hended, hdestroyed⟩ | ⟨hopen, s, hs, hremembers⟩
  · rw [if_pos hdestroyed]
    exact .inl ⟨_, rfl, fun hall => hall.2.1 hended⟩
  · rw [← catalog_of_session? hs, hremembers.awake, if_neg Bool.false_ne_true]
    cases hkeeps : o.keepsDiff with
    | false => exact .inl ⟨_, rfl, fun hall => nomatch hall.1⟩
    | true =>
      rw [if_pos rfl]
      rcases hremembers.pending hkeeps with ⟨hnone, hdue⟩ | ⟨diff, before, hpending, hdue, hbetween⟩
      · rw [hnone, hdue]
        exact .inl ⟨_, rfl, fun hall => nomatch hall.2.2⟩
      · rw [hpending]
        exact .inr ⟨diff, before, rfl, rfl, hopen, hdue, hbetween⟩

theorem Observed.observer_contract (h : Observed o space record) : ObserverContract o space record where
  answered := fun _ _ _ hshared hlock => h.accords.poll_answered hshared hlock
  positive_iff := fun hnodes hedges _ hanswer => h.accords.poll_positive_iff hnodes hedges hanswer
  takeable_iff := by
    rcases h.accords.takeDiff_cases with
      ⟨fault, hrefused, hnot⟩ | ⟨diff, before, htaken, hkeeps, hopen, hdue, _⟩
    · rw [hrefused]
      exact iff_of_false (by rintro ⟨_, ⟨⟩⟩) hnot
    · rw [htaken, hdue]
      exact iff_of_true ⟨diff, rfl⟩ ⟨hkeeps, hopen, rfl⟩
  between := by
    intro diff hdiff
    rcases h.accords.takeDiff_cases with
      ⟨fault, hrefused, _⟩ | ⟨diff', before, htaken, _, _, hdue, hbetween⟩
    · rw [hrefused] at hdiff
      cases hdiff
    · rw [htaken, Except.ok.injEq] at hdiff
      exact ⟨before, hdue, hdiff ▸ hbetween⟩
  replayed := by
    intro diffs hdiffs hdue
    have hreplayed := h.accords.replayed diffs hdiffs
    rwa [hdue] at hreplayed
  beside := fun _ hother =>
    ⟨h.other_hasChanged hother, h.other_takeDiff hother, h.other_destroy hother⟩

/-! ### An observer of a graph to which a node comes -/

def bare : GraphSpace := (Graph.open_ { locking := false } {}).2

def watcher : Observer := { serial := 0, graph := 0, view := none, keepsDiff := true }

def watched : GraphSpace := (Observer.create ⟨0⟩ none true bare).2

def exampleNode : Node := { serial := 1, id := .int 1 }

def withNode : GraphSpace := (Graph.run ⟨0⟩ (Command.addNode exampleNode).act watched).2

def exampleRecord : PollRecord :=
  PollRecord.pass { start := watched.membersFor watcher, base := watched.membersFor watcher }
    (watched.found? watcher) (withNode.found? watcher)

theorem observed_withNode : Observed watcher withNode exampleRecord := by
  have hbare : History bare := .opened {} { locking := false } .empty
  have hwatched : Observed watcher watched
      { start := watched.membersFor watcher, base := watched.membersFor watcher } :=
    .created bare watched ⟨0⟩ none true hbare (fun s _ v r hview => by cases hview) rfl
  exact .called watched _ ⟨0⟩ (.addNode exampleNode) hwatched nofun nofun

def quiet : Session where
  catalog := watched.catalog
  store := { Store.empty 0 { locking := false } with observers := [watcher] }

theorem session?_watched : watched.session? ⟨0⟩ = some quiet := rfl

theorem exampleNode_mem_withNode :
    ∃ s, withNode.session? ⟨0⟩ = some s ∧ s.store.node? 0 = some exampleNode := by
  have hhome : quiet.nodeSlot? exampleNode = .ok none := by
    have hnone : quiet.catalog.nodeHomes[exampleNode]? = none := by
      change (∅ : Std.HashMap Node Home)[exampleNode]? = none
      exact Std.HashMap.getElem?_empty
    rw [nodeSlot?, hnone]
  have hfree : quiet.store.nodes.ids.contains exampleNode.id = false := Std.HashMap.contains_empty
  refine ⟨_, session?_run session?_watched _, ?_⟩
  change ((Command.addNode exampleNode).perform quiet).store.node? 0 = some exampleNode
  rw [Command.perform, Command.act, addNode_of_fresh rfl hhome hfree rfl]
  rfl

theorem exists_exampleRecord_eq : ∃ s : Session, s.store.node? 0 = some exampleNode ∧
    exampleRecord = PollRecord.pass
      { start := watched.membersFor watcher, base := watched.membersFor watcher }
      (some (quiet.store.version, quiet.members none))
      (some (s.store.version, s.members none)) := by
  obtain ⟨s, hs, hexample⟩ := exampleNode_mem_withNode
  refine ⟨s, hexample, ?_⟩
  rw [exampleRecord, found?_of_session? (o := watcher) session?_watched rfl,
    found?_of_session? (o := watcher) hs rfl]
  rfl

theorem changed_exampleRecord : exampleRecord.changed := by
  obtain ⟨s, hexample, hrecord⟩ := exists_exampleRecord_eq
  rw [hrecord]
  refine .inr fun hsame => ?_
  have hmem : exampleNode ∈ (s.members none).nodes := ⟨0, hexample⟩
  rw [hsame] at hmem
  obtain ⟨n, hn⟩ := hmem
  cases hn

theorem bumps_exampleRecord_lt :
    exampleRecord.nodeBumps < 2 ^ 32 ∧ exampleRecord.edgeBumps < 2 ^ 32 := by
  obtain ⟨s, _, hrecord⟩ := exists_exampleRecord_eq
  rw [hrecord, PollRecord.pass]
  simp only [Nat.zero_add]
  exact ⟨Version.raised_lt _ _, Version.raised_lt _ _⟩

/-- The observer is told that there is a node, and it has a diff to take only once it was told. -/
theorem observer_contract_withNode : Observed watcher withNode exampleRecord ∧
    ObserverContract watcher withNode exampleRecord ∧ (watcher.hasChanged withNode).1 = .ok true ∧
    ¬ ∃ diff, (watcher.takeDiff withNode).1 = .ok diff := by
  have hcontract : ObserverContract watcher withNode exampleRecord := observed_withNode.observer_contract
  obtain ⟨answer, hanswer⟩ := (hcontract.answered _ _ _ rfl rfl).mpr id
  have hpositive :=
    hcontract.positive_iff bumps_exampleRecord_lt.1 bumps_exampleRecord_lt.2 answer hanswer
  refine ⟨observed_withNode, hcontract, ?_, fun htaken => ?_⟩
  · rw [hanswer, hpositive.mpr changed_exampleRecord]
  · cases (hcontract.takeable_iff.mp htaken).2.2

end GraphSpace

end PropertyGraph

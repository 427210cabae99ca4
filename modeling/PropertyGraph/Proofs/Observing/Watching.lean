import PropertyGraph.Proofs.Observing.Attachment

/-!
# Who watches

Few calls touch observers: a new view has none, a view that is destroyed takes its observers with
it, a new observer is attached and a destroyed one detached, and a poll is remembered by the observer
that made it.
-/

namespace PropertyGraph

namespace Session

open PropertyGraph.Action

variable {s s' s'' : Session} {order : List Nat} {view : View} {r r' : ViewRecord}
  {o : Observer} {slot : Nat} {command : Command}

/-! ### What a call does to who watches -/

/-- What a call does to who watches, and to what they remember. -/
inductive ObserverEffect (s s' : Session) : Command → Prop where
  | nothing (command : Command) (h : KeepsWatches s s') : ObserverEffect s s' command
  /-- A view without observers was placed in a slot that was free. -/
  | placed (command : Command) (slot : Nat) (flat : Bool) (htoken : s'.store.token = s.store.token)
    (hfresh : s.catalog.fresh ≤ s'.catalog.fresh)
    (hwatch : ∀ o, s'.catalog.watch o = s.catalog.watch o)
    (hdestroyed : ∀ view, s'.catalog.isDestroyed view = s.catalog.isDestroyed view)
    (hfree : s.observersAt slot = none)
    (hwatching : ∀ i, s'.observersAt i = if i = slot then some ([], flat) else s.observersAt i) :
    ObserverEffect s s' command
  /-- A view was destroyed, and so were those who were attached to it. -/
  | destroyed (view : View) (observers : List Observer) (flat : Bool)
    (hforeign : view.store = s.store.token) (hthere : s.observersAt view.slot = some (observers, flat))
    (htoken : s'.store.token = s.store.token) (hfresh : s'.catalog.fresh = s.catalog.fresh)
    (hwatch : ∀ o, s'.catalog.watch o =
      if o ∈ observers then { s.catalog.watch o with destroyed := true } else s.catalog.watch o)
    (hdestroyed : ∀ other, s'.catalog.isDestroyed other =
      (view == other || s.catalog.isDestroyed other))
    (hwatching : ∀ i, s'.observersAt i = if i = view.slot then none else s.observersAt i) :
    ObserverEffect s s' (.destroyView view)
  /-- An observer was made, and attached to its view if it is of one. -/
  | attached (o : Observer) (hserial : o.serial = s.catalog.fresh)
    (hgraph : o.graph = s.store.token) (htoken : s'.store.token = s.store.token)
    (hfresh : s.catalog.fresh ≤ s'.catalog.fresh)
    (hwatch : ∀ other, other ≠ o → s'.catalog.watch other = s.catalog.watch other)
    (hdestroyed : ∀ view, s'.catalog.isDestroyed view = s.catalog.isDestroyed view)
    (hwatching : ∀ i, s'.observersAt i = if o.view.map (·.slot) = some i
      then (s.observersAt i).map fun x => (x.1 ++ [o], x.2) else s.observersAt i) :
    ObserverEffect s s' (.createObserver o.view o.keepsDiff)
  /-- An observer took note of a poll. -/
  | noted (o : Observer) (htoken : s'.store.token = s.store.token)
    (hfresh : s'.catalog.fresh = s.catalog.fresh)
    (hwatch : ∀ other, other ≠ o → s'.catalog.watch other = s.catalog.watch other)
    (hdestroyed : ∀ view, s'.catalog.isDestroyed view = s.catalog.isDestroyed view)
    (hwatching : ∀ i, s'.observersAt i = s.observersAt i) : ObserverEffect s s' (.poll o)
  /-- An observer was detached. -/
  | detached (o : Observer) (htoken : s'.store.token = s.store.token)
    (hcatalog : s.catalog.SameWatches s'.catalog)
    (hwatching : ∀ i, s'.observersAt i = s.observersAt i ∨ ∃ observers flat,
      s.observersAt i = some (observers, flat) ∧
        s'.observersAt i = some (observers.filter (· ≠ o), flat)) :
    ObserverEffect s s' (.detachObserver o)

/-- A view that is new was placed in a slot that was free, and nothing else happened to the views. -/
structure Placed (s s' : Session) (view : View) (flat : Bool) : Prop where
  serial : view.serial = s.catalog.fresh
  store : view.store = s.store.token
  token : s'.store.token = s.store.token
  fresh : s'.catalog.fresh = s.catalog.fresh + 1
  watch : ∀ o, s'.catalog.watch o = s.catalog.watch o
  isDestroyed : ∀ other, s'.catalog.isDestroyed other = s.catalog.isDestroyed other
  free : s.store.views.arena.get? view.slot = none
  observersAt : ∀ i, s'.observersAt i = if i = view.slot then some ([], flat) else s.observersAt i
  holder : ∀ i, s'.holder i = if i = view.slot then some view else s.holder i
  visible : s'.store.views.visible = s.store.views.visible
  observers : s'.store.observers = s.store.observers

theorem placeView_cases (hs : s.Consistent order) (hierarchical : Bool) (base : Option ViewRecord) :
    (∃ fault, placeView hierarchical base s = (.error fault, s)) ∨
    ∃ view flat s', placeView hierarchical base s = (.ok view, s') ∧ Placed s s' view flat := by
  rcases placeView_run hs hierarchical base with ⟨fault, h⟩ | ⟨slot, arena, hfree, _, hget, h⟩
  · exact .inl ⟨fault, h⟩
  · rw [h]
    refine .inr ⟨_, (if hierarchical then some ({} : GroupForest Nat) else none).isNone, _, rfl,
      rfl, rfl, rfl, rfl, fun _ => rfl, fun _ => rfl, hfree, fun i => ?_, fun i => ?_, rfl, rfl⟩
    · change (arena.get? i).map _ = _
      rw [hget, apply_ite (Option.map _)]
      rfl
    · change (arena.get? i).map _ = _
      rw [hget, apply_ite (Option.map _)]
      rfl

theorem createViewFrom_cases (base : View) (s : Session) :
    (∃ fault, createViewFrom base s = (.error fault, s)) ∨
    ∃ r, s.viewRecord base = .ok r ∧
      createViewFrom base s = placeView base.hierarchical (some r) s := by
  rw [createViewFrom, bind_apply, ask_apply]
  cases s.viewRecord base with
  | error fault => exact .inl ⟨fault, rfl⟩
  | ok r => exact .inr ⟨r, rfl, rfl⟩

theorem observerEffect_placeView (hs : s.Consistent order) (hierarchical : Bool)
    (base : Option ViewRecord)
    (command : Command) : ObserverEffect s (placeView hierarchical base s).2 command := by
  rcases placeView_cases hs hierarchical base with ⟨fault, h⟩ | ⟨view, flat, s', h, hplaced⟩
  · rw [h]
    exact .nothing command (.refl s)
  · rw [h]
    refine .placed command view.slot flat hplaced.token ?_ hplaced.watch hplaced.isDestroyed ?_
      hplaced.observersAt
    · rw [hplaced.fresh]
      exact Nat.le_succ _
    · rw [observersAt, hplaced.free, Option.map_none]

theorem observersAt_of_viewRecord (h : s.viewRecord view = .ok r) :
    s.observersAt view.slot = some (r.observers, r.groups.isNone) := by
  rw [observersAt, get?_of_viewRecord h, Option.map_some]

/-- A view was destroyed, and so were those who were attached to it. Nothing else happened to the
views, but a view that was visible is so no longer. -/
structure RemovesView (s s' : Session) (view : View) (r : ViewRecord) : Prop where
  token : s'.store.token = s.store.token
  fresh : s'.catalog.fresh = s.catalog.fresh
  watch : ∀ o, s'.catalog.watch o =
    if o ∈ r.observers then { s.catalog.watch o with destroyed := true } else s.catalog.watch o
  isDestroyed : ∀ other, s'.catalog.isDestroyed other =
    (view == other || s.catalog.isDestroyed other)
  record : ∀ i, s'.store.views.arena.get? i =
    if i = view.slot then none else s.store.views.arena.get? i
  visible : s'.store.views.visible =
    if s.store.views.visible = some view then none else s.store.views.visible
  store : s'.store = { s.store with views := s'.store.views }
  catalog : s'.catalog = { s.catalog with
    destroyedViews := s'.catalog.destroyedViews
    watches := s'.catalog.watches
    events := s'.catalog.events }

theorem catalog_of_removesView {event : Event} {listeners : List Listener} {observers : List Observer}
    {gone : Std.HashSet View} {c c' : Catalog}
    (h : c' = listeners.foldl (Catalog.tell event)
      (observers.foldl Catalog.destroyObserver { c with destroyedViews := gone })) :
    c' = { c with
      destroyedViews := c'.destroyedViews, watches := c'.watches, events := c'.events } := by
  rw [foldl_tell_eq, foldl_destroyObserver_eq] at h
  subst h
  rfl

theorem destroyView_cases (hs : s.Consistent order) (view : View) :
    (∃ fault, s.viewRecord view = .error fault ∧ destroyView view s = (.error fault, s)) ∨
    ∃ r s', s.viewRecord view = .ok r ∧ destroyView view s = (.ok (), s') ∧ RemovesView s s' view r := by
  rw [destroyView, bind_apply, ask_apply]
  cases hr : s.viewRecord view with
  | error fault => exact .inl ⟨fault, rfl, rfl⟩
  | ok r =>
    simp only [bind_apply, change_apply]
    have hheard : ∀ (event : Event) (t : Session), t.catalog.SameWatches (t.tell event).catalog :=
      fun event t => .foldl (Catalog.SameWatches.tell event) t.store.listeners t.catalog
    have hmarked := foldl_destroyObserver_eq r.observers
      { s.catalog with destroyedViews := s.catalog.destroyedViews.insert view }
    refine .inr ⟨r, _, rfl, rfl, rfl, ?_, fun o => ?_, fun other => ?_, fun i => ?_, rfl, rfl, ?_⟩
    · refine (hheard _ _).fresh.trans ?_
      exact (congrArg Catalog.fresh hmarked).trans rfl
    · exact ((hheard _ _).watch_eq o).trans (Catalog.watch_foldl_destroyObserver r.observers _ o)
    · refine ((hheard _ _).isDestroyed_eq other).trans ?_
      refine Eq.trans ?_ (Catalog.isDestroyed_insert s.catalog view other)
      exact (congrArg (·.isDestroyed other) hmarked).trans rfl
    · exact hs.views_valid.get?_free
    · exact catalog_of_removesView rfl

theorem RemovesView.observersAt (h : RemovesView s s' view r) (i : Nat) :
    s'.observersAt i = if i = view.slot then none else s.observersAt i := by
  rw [Session.observersAt, h.record]
  split <;> rfl

theorem observerEffect_destroyView (hs : s.Consistent order) (view : View) :
    ObserverEffect s (destroyView view s).2 (.destroyView view) := by
  rcases destroyView_cases hs view with ⟨fault, _, h⟩ | ⟨r, s', hr, h, hdestroys⟩
  · rw [h]
    exact .nothing _ (.refl s)
  · rw [h]
    exact .destroyed view r.observers r.groups.isNone (live_of_viewRecord hr).1
      (observersAt_of_viewRecord hr) hdestroys.token hdestroys.fresh hdestroys.watch
        hdestroys.isDestroyed
      hdestroys.observersAt

theorem snapshot_of_versionOf {view : Option View} {version : Version}
    (h : s.versionOf view = .ok version) : ∃ snapshot, s.snapshot view = .ok snapshot := by
  cases view with
  | none => exact ⟨_, rfl⟩
  | some view =>
    obtain ⟨r, hr, _⟩ := viewRecord_of_versionOf h
    rw [snapshot, viewNodes, viewEdges, hr]
    exact ⟨_, rfl⟩

/-- An observer was attached to its view, if it is of one. Nothing else happened to the views. -/
structure Attaches (s s' : Session) (o : Observer) : Prop where
  token : s'.store.token = s.store.token
  observersAt : ∀ i, s'.observersAt i = if o.view.map (·.slot) = some i
    then (s.observersAt i).map fun x => (x.1 ++ [o], x.2) else s.observersAt i
  holder : ∀ i, s'.holder i = s.holder i
  visible : s'.store.views.visible = s.store.views.visible

theorem attachObserver_of_live {version : Version} (h : s.versionOf o.view = .ok version) :
    ∃ s', attachObserver o s = (.ok (), s') ∧ s'.catalog = s.catalog ∧
      s'.versionOf o.view = .ok version ∧ Attaches s s' o := by
  rw [attachObserver]
  cases hview : o.view with
  | none =>
    rw [hview] at h
    refine ⟨_, rfl, rfl, h, rfl, fun i => ?_, fun _ => rfl, rfl⟩
    rw [hview, if_neg (by simp)]
    rfl
  | some view =>
    rw [hview] at h
    obtain ⟨r, hr, _⟩ := viewRecord_of_versionOf h
    have hget := get?_of_viewRecord hr
    obtain ⟨hstore, hlive⟩ := live_of_viewRecord hr
    have hr' : (s.setRecord view { r with observers := r.observers ++ [o] }).viewRecord view =
        .ok { r with observers := r.observers ++ [o] } :=
      viewRecord_of_live hstore hlive (by rw [get?_setRecord hget, if_pos rfl])
    refine ⟨_, editView_of_live hr rfl, rfl, ?_, rfl, fun i => ?_, fun i => ?_, rfl⟩
    · rw [versionOf_of_viewRecord hr', ← h, versionOf_of_viewRecord hr]
    · rw [observersAt_setRecord hget, hview, Option.map_some]
      by_cases hslot : i = view.slot
      · rw [if_pos hslot, if_pos (congrArg some hslot.symm), hslot, observersAt_of_viewRecord hr]
        rfl
      · rw [if_neg hslot, if_neg fun heq => hslot (Option.some.inj heq).symm]
    · rw [holder_setRecord hget]
      split
      · next hslot => rw [hslot, Session.holder, hget, Option.map_some]
      · rfl

def nextObserver (s : Session) (view : Option View) (keepsDiff : Bool) : Observer :=
  { serial := s.catalog.fresh, graph := s.store.token, view, keepsDiff }

/-- Makes an observer that remembers a version and a snapshot. -/
def createAttached (view : Option View) (keepsDiff : Bool) (version : Version) (snapshot : Snapshot) :
    Action Observer := do
  let s ← get
  change (·.withCatalog fun catalog =>
    { catalog with fresh := catalog.fresh + 1 }.modifyWatch (s.nextObserver view keepsDiff)
      fun _ => { last := version, snapshot })
  attachObserver (s.nextObserver view keepsDiff)
  return s.nextObserver view keepsDiff

/-- An observer that is made remembers the version and, if it keeps diffs, what there is, and it is
attached to its view. -/
structure CreatesObserver (s s' : Session) (o : Observer) (version : Version) : Prop
    extends Attaches s s' o where
  versionOf_eq : s.versionOf o.view = .ok version
  catalog : ∃ snapshot, (o.keepsDiff = true → s.snapshot o.view = .ok snapshot) ∧
    s'.catalog = { s.catalog with fresh := s.catalog.fresh + 1 }.modifyWatch o
      fun _ => { last := version, snapshot }
  versionOf_eq' : s'.versionOf o.view = .ok version

theorem createObserver_cases (view : Option View) (keepsDiff : Bool) (s : Session) :
    (∃ fault, createObserver view keepsDiff s = (.error fault, s)) ∨
    ∃ s' version, createObserver view keepsDiff s = (.ok (s.nextObserver view keepsDiff), s') ∧
      CreatesObserver s s' (s.nextObserver view keepsDiff) version := by
  cases hversion : s.versionOf view with
  | error fault =>
    refine .inl ⟨fault, ?_⟩
    rw [createObserver, bind_apply, ask_apply, hversion]
  | ok version =>
    have henlist : ∀ snapshot : Snapshot, (keepsDiff = true → s.snapshot view = .ok snapshot) →
        ∃ s', createAttached view keepsDiff version snapshot s =
          (.ok (s.nextObserver view keepsDiff), s') ∧
          CreatesObserver s s' (s.nextObserver view keepsDiff) version := by
      intro snapshot hsnapshot
      have hlisted : (s.withCatalog fun catalog =>
          { catalog with fresh := catalog.fresh + 1 }.modifyWatch (s.nextObserver view keepsDiff)
            fun _ => { last := version, snapshot }).versionOf (s.nextObserver view keepsDiff).view =
          .ok version := hversion
      obtain ⟨s', hattached, hcatalog, hversion', hattaches⟩ := attachObserver_of_live hlisted
      have hattaches' : Attaches s s' (s.nextObserver view keepsDiff) :=
        ⟨hattaches.token, hattaches.observersAt, hattaches.holder, hattaches.visible⟩
      refine ⟨s', ?_, hattaches', hversion, ⟨snapshot, hsnapshot, hcatalog⟩, hversion'⟩
      rw [createAttached]
      simp only [bind_apply, get_apply, change_apply]
      rw [hattached]
      rfl
    obtain ⟨seen, hseen⟩ := snapshot_of_versionOf hversion
    rw [createObserver, bind_apply, ask_apply, hversion]
    cases keepsDiff with
    | false =>
      obtain ⟨s', hdone, hcreates⟩ := henlist {} fun hkeeps => absurd hkeeps Bool.false_ne_true
      exact .inr ⟨s', version, hdone, hcreates⟩
    | true =>
      obtain ⟨s', hdone, hcreates⟩ := henlist seen fun _ => hseen
      refine .inr ⟨s', version, ?_, hcreates⟩
      change (ask (·.snapshot view) >>= fun snapshot => createAttached view true version snapshot) s = _
      rw [bind_apply, ask_apply, hseen]
      exact hdone

theorem observerEffect_createObserver (view : Option View) (keepsDiff : Bool) (s : Session) :
    ObserverEffect s (createObserver view keepsDiff s).2 (.createObserver view keepsDiff) := by
  rcases createObserver_cases view keepsDiff s with ⟨fault, h⟩ | ⟨s', version, h, hcreates⟩
  · rw [h]
    exact .nothing _ (.refl s)
  · rw [h]
    obtain ⟨snapshot, _, hcatalog⟩ := hcreates.catalog
    refine .attached (s.nextObserver view keepsDiff) rfl rfl hcreates.token ?_
      (fun other hother => ?_) (fun view => ?_) hcreates.observersAt
    · rw [hcatalog]
      exact Nat.le_succ _
    · rw [hcatalog, Catalog.watch_modifyWatch, if_neg hother]
      rfl
    · rw [hcatalog]
      rfl

/-- Nothing changes but what one observer remembers. -/
structure EditsWatch (o : Observer) (s s' : Session) : Prop where
  store : s'.store = s.store
  fresh : s'.catalog.fresh = s.catalog.fresh
  others : ∀ other, other ≠ o → s'.catalog.watch other = s.catalog.watch other
  destroyedViews : s'.catalog.destroyedViews = s.catalog.destroyedViews

theorem editsWatch_modifyWatch (s : Session) (o : Observer) (f : Watch → Watch) :
    EditsWatch o s (s.withCatalog (·.modifyWatch o f)) :=
  ⟨rfl, rfl, fun other hother => by
    change (s.catalog.modifyWatch o f).watch other = _
    rw [Catalog.watch_modifyWatch, if_neg hother], rfl⟩

theorem EditsWatch.trans (h : EditsWatch o s s') (h' : EditsWatch o s' s'') : EditsWatch o s s'' where
  store := h'.store.trans h.store
  fresh := h'.fresh.trans h.fresh
  others := fun other hother => (h'.others other hother).trans (h.others other hother)
  destroyedViews := h'.destroyedViews.trans h.destroyedViews

/-- What an observer remembers after a poll that answers. -/
inductive Polled (s : Session) (o : Observer) (version : Version) (before : Watch) :
    Bool → Watch → Prop where
  | same (h : version = before.last) :
    Polled s o version before false { before with pending := none }
  | changed (h : version ≠ before.last) (hkeeps : o.keepsDiff = false) :
    Polled s o version before true { before with last := version }
  | compared (now : Snapshot) (h : version ≠ before.last) (hkeeps : o.keepsDiff = true)
    (hnow : s.snapshot o.view = .ok now) : Polled s o version before true
      { before with
        last := version
        pending := some (.between before.snapshot now)
        snapshot := now }

theorem poll_cases (o : Observer) (s : Session) :
    (∃ fault, s.versionOf o.view = .error fault ∧ poll o s = (.error fault, s)) ∨
    ∃ version answer s', s.versionOf o.view = .ok version ∧ poll o s = (.ok answer, s') ∧
      EditsWatch o s s' ∧ Polled s o version (s.catalog.watch o) answer (s'.catalog.watch o) := by
  have hmarked : ∀ (t : Session) (f : Watch → Watch),
      (t.withCatalog (·.modifyWatch o f)).catalog.watch o = f (t.catalog.watch o) := by
    intro t f
    refine (Catalog.watch_modifyWatch t.catalog o f o).trans ?_
    rw [if_pos rfl]
  rw [poll, bind_apply, ask_apply]
  cases hversion : s.versionOf o.view with
  | error fault => exact .inl ⟨fault, rfl, rfl⟩
  | ok version =>
    simp only [bind_apply, get_apply]
    by_cases hseen : version = (s.catalog.watch o).last
    · rw [if_pos hseen]
      refine .inr ⟨version, false, _, rfl, rfl, editsWatch_modifyWatch s o _, ?_⟩
      rw [hmarked]
      exact .same hseen
    · rw [if_neg hseen]
      cases hkeeps : o.keepsDiff with
      | false =>
        refine .inr ⟨version, true, _, rfl, rfl, editsWatch_modifyWatch s o _, ?_⟩
        rw [hmarked]
        exact .changed hseen hkeeps
      | true =>
        obtain ⟨now, hnow⟩ := snapshot_of_versionOf hversion
        have hnow' : (s.withCatalog (·.modifyWatch o fun watch =>
            { watch with last := version })).snapshot o.view = .ok now := hnow
        simp only [bind_apply, change_apply, if_true, ask_apply, hnow']
        refine .inr ⟨version, true, _, rfl, rfl,
          (editsWatch_modifyWatch s o _).trans (editsWatch_modifyWatch _ o _), ?_⟩
        rw [hmarked, hmarked]
        exact .compared now hseen hkeeps hnow

theorem observerEffect_poll (o : Observer) (s : Session) : ObserverEffect s (poll o s).2 (.poll o) := by
  rcases poll_cases o s with ⟨fault, _, h⟩ | ⟨version, answer, s', _, h, heditsWatch, _⟩
  · rw [h]
    exact .nothing _ (.refl s)
  · rw [h]
    refine .noted o ?_ heditsWatch.fresh heditsWatch.others (fun view => ?_) fun i => ?_
    · rw [heditsWatch.store]
    · rw [Catalog.isDestroyed, heditsWatch.destroyedViews, Catalog.isDestroyed]
    · rw [observersAt, heditsWatch.store, observersAt]

/-- An observer was taken off its view, if that is reached. Nothing else happened to the views. -/
structure Detaches (s s' : Session) (o : Observer) : Prop where
  token : s'.store.token = s.store.token
  catalog : s'.catalog = s.catalog
  own : ∀ view r, o.view = some view → s.viewRecord view = .ok r →
    s'.observersAt view.slot = some (r.observers.filter (· ≠ o), r.groups.isNone)
  others : ∀ i, (∀ view r, o.view = some view → s.viewRecord view = .ok r → i ≠ view.slot) →
    s'.observersAt i = s.observersAt i
  holder : ∀ i, s'.holder i = s.holder i
  visible : s'.store.views.visible = s.store.views.visible

theorem detaches_detachObserver (o : Observer) (s : Session) : Detaches s (s.detachObserver o) o := by
  rw [detachObserver]
  cases hview : o.view with
  | none =>
    refine ⟨rfl, rfl, fun view r hown => ?_, fun _ _ => rfl, fun _ => rfl, rfl⟩
    cases hview.symm.trans hown
  | some view =>
    simp only
    cases hrecord : s.viewRecord view with
    | error fault =>
      refine ⟨rfl, rfl, fun other r hown hr => ?_, fun _ _ => rfl, fun _ => rfl, rfl⟩
      cases hview.symm.trans hown
      cases hrecord.symm.trans hr
    | ok r =>
      have hget := get?_of_viewRecord hrecord
      refine ⟨rfl, rfl, fun other r' hown hr => ?_, fun i hi => ?_, fun i => ?_, rfl⟩
      · cases hview.symm.trans hown
        cases hrecord.symm.trans hr
        change ((s.store.views.arena.modify view.slot _).get? view.slot).map _ = _
        rw [Arena.get?_modify, if_pos rfl, hget]
        rfl
      · change ((s.store.views.arena.modify view.slot _).get? i).map _ = _
        rw [Arena.get?_modify, if_neg (hi view r hview hrecord)]
        rfl
      · change ((s.store.views.arena.modify view.slot _).get? i).map _ = _
        rw [Arena.get?_modify, Session.holder]
        split
        · next hslot => rw [hslot, hget, Option.map_some, Option.map_some, Option.map_some]
        · rfl

theorem observerEffect_detachObserver (o : Observer) (s : Session) :
    ObserverEffect s (s.detachObserver o) (.detachObserver o) := by
  have hdetaches := detaches_detachObserver o s
  have hcatalog : s.catalog.SameWatches (s.detachObserver o).catalog := by
    rw [hdetaches.catalog]
    exact .refl _
  refine .detached o hdetaches.token hcatalog fun i => ?_
  by_cases hi : ∀ view r, o.view = some view → s.viewRecord view = .ok r → i ≠ view.slot
  · exact .inl (hdetaches.others i hi)
  · push Not at hi
    obtain ⟨view, r, hown, hr, rfl⟩ := hi
    exact .inr ⟨r.observers, r.groups.isNone, observersAt_of_viewRecord hr, hdetaches.own view r hown hr⟩

theorem observerEffect_perform (hs : s.Consistent order) (command : Command) :
    ObserverEffect s (command.perform s) command := by
  cases command with
  | createView hierarchical => exact observerEffect_placeView hs hierarchical none _
  | createViewFrom base =>
    change ObserverEffect s (createViewFrom base s).2 _
    rcases createViewFrom_cases base s with ⟨fault, h⟩ | ⟨r, _, h⟩
    · rw [h]
      exact .nothing _ (.refl s)
    · rw [h]
      exact observerEffect_placeView hs base.hierarchical (some r) _
  | destroyView view => exact observerEffect_destroyView hs view
  | setVisibleView view => exact .nothing _ (keepsWatches_setVisibleView view s)
  | createObserver view keepsDiff => exact observerEffect_createObserver view keepsDiff s
  | poll observer => exact observerEffect_poll observer s
  | detachObserver observer => exact observerEffect_detachObserver observer s
  | _ => exact .nothing _ (keepsObservers_perform hs _ rfl).toKeepsWatches

/-! ### What becomes of an observer -/

/-- Whoever is attached to a record observes a view of this store that lies there. -/
def WellAttached (s : Session) : Prop :=
  ∀ slot observers flat, s.observersAt slot = some (observers, flat) → ∀ o ∈ observers,
    o.graph = s.store.token ∧ ∃ view, o.view = some view ∧ view.slot = slot

theorem WellAttached.of_store (h : s.WellAttached) (hstore : s'.store = s.store) : s'.WellAttached := by
  intro slot observers flat hthere
  rw [observersAt, hstore] at hthere
  rw [hstore]
  exact h slot observers flat hthere

theorem wellAttached_of_open? {token : Nat} {config : Config} {store : Store} {catalog : Catalog}
    (hopen : Store.open? token config = .ok store) : WellAttached { catalog, store } := by
  cases store_of_open? hopen
  intro slot observers flat hthere
  have hnone : ({ growth := .linear } : Arena ViewRecord).get? slot = none := Arena.get?_empty
  change (({ growth := .linear } : Arena ViewRecord).get? slot).map _ = _ at hthere
  rw [hnone] at hthere
  cases hthere

/-- An observer of a view is attached to it, and the view is flat and live. -/
def Attends (o : Observer) (s : Session) : Prop :=
  ∀ view, o.view = some view → view.store = s.store.token ∧ s.catalog.isDestroyed view = false ∧
    ∃ observers, s.observersAt view.slot = some (observers, true) ∧ o ∈ observers

namespace ObserverEffect

theorem fresh_le (h : ObserverEffect s s' command) : s.catalog.fresh ≤ s'.catalog.fresh := by
  cases h with
  | nothing _ h => exact Nat.le_of_eq h.catalog.fresh.symm
  | placed _ _ _ _ hfresh => exact hfresh
  | destroyed _ _ _ _ _ _ hfresh => exact Nat.le_of_eq hfresh.symm
  | attached _ _ _ _ hfresh => exact hfresh
  | noted _ _ hfresh => exact Nat.le_of_eq hfresh.symm
  | detached _ _ hcatalog => exact Nat.le_of_eq hcatalog.fresh.symm

theorem token_eq (h : ObserverEffect s s' command) : s'.store.token = s.store.token := by
  cases h with
  | nothing _ h => exact h.token
  | placed _ _ _ htoken => exact htoken
  | destroyed _ _ _ _ _ htoken => exact htoken
  | attached _ _ _ htoken => exact htoken
  | noted _ htoken => exact htoken
  | detached _ htoken => exact htoken

theorem exists_before (h : ObserverEffect s s' command) {observers : List Observer} {flat : Bool}
    (hthere : s'.observersAt slot = some (observers, flat)) (ho : o ∈ observers) :
    (∃ before, s.observersAt slot = some (before, flat) ∧ o ∈ before) ∨
      (o.graph = s.store.token ∧ ∃ view, o.view = some view ∧ view.slot = slot) := by
  cases h with
  | nothing _ h => exact .inl ⟨observers, (h.observersAt slot).symm.trans hthere, ho⟩
  | placed _ fresh _ _ _ _ _ _ hwatching =>
    rw [hwatching] at hthere
    split at hthere
    · cases hthere
      cases ho
    · exact .inl ⟨observers, hthere, ho⟩
  | destroyed _ _ _ _ _ _ _ _ _ hwatching =>
    rw [hwatching] at hthere
    split at hthere
    · cases hthere
    · exact .inl ⟨observers, hthere, ho⟩
  | attached other _ hgraph _ _ _ _ hwatching =>
    rw [hwatching] at hthere
    split at hthere
    · next hslot =>
      obtain ⟨view, hview, hslot⟩ := Option.map_eq_some_iff.mp hslot
      obtain ⟨⟨before, _⟩, hbefore, heq⟩ := Option.map_eq_some_iff.mp hthere
      cases heq
      rcases List.mem_append.mp ho with ho | ho
      · exact .inl ⟨before, hbefore, ho⟩
      · rw [List.mem_singleton.mp ho]
        exact .inr ⟨hgraph, view, hview, hslot⟩
    · exact .inl ⟨observers, hthere, ho⟩
  | noted _ _ _ _ _ hwatching => exact .inl ⟨observers, (hwatching slot).symm.trans hthere, ho⟩
  | detached other _ _ hwatching =>
    rcases hwatching slot with hsame | ⟨before, _, hbefore, hafter⟩
    · exact .inl ⟨observers, hsame.symm.trans hthere, ho⟩
    · rw [hafter] at hthere
      cases hthere
      exact .inl ⟨before, hbefore, List.mem_of_mem_filter ho⟩

theorem wellAttached (h : ObserverEffect s s' command) (hattached : s.WellAttached) :
    s'.WellAttached := by
  intro slot observers flat hthere o ho
  rw [h.token_eq]
  rcases h.exists_before hthere ho with ⟨before, hbefore, hmem⟩ | hnew
  · exact hattached slot before flat hbefore o hmem
  · exact hnew

/-- What an observer remembers is its own affair, unless its view is destroyed. -/
theorem watch_cases (h : ObserverEffect s s' command) (hpoll : command ≠ .poll o)
    (hserial : o.serial < s.catalog.fresh) :
    s'.catalog.watch o = s.catalog.watch o ∨ ∃ slot observers flat,
      s.observersAt slot = some (observers, flat) ∧ o ∈ observers ∧ s'.observersAt slot = none ∧
        s'.catalog.watch o = { s.catalog.watch o with destroyed := true } := by
  cases h with
  | nothing _ h => exact .inl (h.catalog.watch_eq o)
  | placed _ _ _ _ _ hwatch => exact .inl (hwatch o)
  | destroyed view observers flat _ hthere _ _ hwatch _ hwatching =>
    by_cases ho : o ∈ observers
    · refine .inr ⟨view.slot, observers, flat, hthere, ho, ?_, ?_⟩
      · rw [hwatching, if_pos rfl]
      · rw [hwatch, if_pos ho]
    · exact .inl ((hwatch o).trans (if_neg ho))
  | attached other hother _ _ _ hwatch =>
    refine .inl (hwatch o ?_)
    rintro rfl
    omega
  | noted other _ _ hwatch =>
    refine .inl (hwatch o ?_)
    rintro rfl
    exact hpoll rfl
  | detached _ _ hcatalog => exact .inl (hcatalog.watch_eq o)

theorem destroyed_of (h : ObserverEffect s s' command) (hpoll : command ≠ .poll o)
    (hserial : o.serial < s.catalog.fresh) (hgone : (s.catalog.watch o).destroyed = true) :
    (s'.catalog.watch o).destroyed = true := by
  rcases h.watch_cases hpoll hserial with hsame | ⟨_, _, _, _, _, _, hmarked⟩
  · rwa [hsame]
  · rw [hmarked]

theorem isDestroyed_cases (h : ObserverEffect s s' command) (view : View) :
    s'.catalog.isDestroyed view = s.catalog.isDestroyed view ∨
      view.store = s.store.token ∧ s'.observersAt view.slot = none := by
  cases h with
  | nothing _ h => exact .inl (h.catalog.isDestroyed_eq view)
  | placed _ _ _ _ _ _ hdestroyed => exact .inl (hdestroyed view)
  | destroyed other _ _ hstore _ _ _ _ hdestroyed hwatching =>
    by_cases hsame : other = view
    · subst hsame
      exact .inr ⟨hstore, (hwatching _).trans (if_pos rfl)⟩
    · refine .inl ((hdestroyed view).trans ?_)
      rw [beq_eq_false_iff_ne.mpr hsame, Bool.false_or]
  | attached _ _ _ _ _ _ hdestroyed => exact .inl (hdestroyed view)
  | noted _ _ _ _ hdestroyed => exact .inl (hdestroyed view)
  | detached _ _ hcatalog => exact .inl (hcatalog.isDestroyed_eq view)

theorem isDestroyed_of (h : ObserverEffect s s' command) (hgone : s.catalog.isDestroyed view = true) :
    s'.catalog.isDestroyed view = true := by
  cases h with
  | nothing _ h => exact (h.catalog.isDestroyed_eq view).trans hgone
  | placed _ _ _ _ _ _ hdestroyed => exact (hdestroyed view).trans hgone
  | destroyed _ _ _ _ _ _ _ _ hdestroyed => rw [hdestroyed, hgone, Bool.or_true]
  | attached _ _ _ _ _ _ hdestroyed => exact (hdestroyed view).trans hgone
  | noted _ _ _ _ hdestroyed => exact (hdestroyed view).trans hgone
  | detached _ _ hcatalog => exact (hcatalog.isDestroyed_eq view).trans hgone

theorem exists_after (h : ObserverEffect s s' command) (hdetach : command ≠ .detachObserver o)
    {observers : List Observer} {flat : Bool} (hthere : s.observersAt slot = some (observers, flat))
    (ho : o ∈ observers) :
    (∃ after, s'.observersAt slot = some (after, flat) ∧ o ∈ after) ∨
      s'.observersAt slot = none ∧
        s'.catalog.watch o = { s.catalog.watch o with destroyed := true } := by
  cases h with
  | nothing _ h => exact .inl ⟨observers, (h.observersAt slot).trans hthere, ho⟩
  | placed _ fresh _ _ _ _ _ hfree hwatching =>
    refine .inl ⟨observers, (hwatching slot).trans ?_, ho⟩
    rw [if_neg, hthere]
    rintro rfl
    rw [hthere] at hfree
    cases hfree
  | destroyed view gone _ _ hgone _ _ hwatch _ hwatching =>
    by_cases hslot : slot = view.slot
    · rw [hslot, hgone, Option.some.injEq, Prod.mk.injEq] at hthere
      refine .inr ⟨(hwatching slot).trans (if_pos hslot), (hwatch o).trans (if_pos ?_)⟩
      rwa [hthere.1]
    · exact .inl ⟨observers, ((hwatching slot).trans (if_neg hslot)).trans hthere, ho⟩
  | attached other _ _ _ _ _ _ hwatching =>
    rw [hwatching, hthere]
    split
    · exact .inl ⟨observers ++ [other], rfl, List.mem_append_left _ ho⟩
    · exact .inl ⟨observers, rfl, ho⟩
  | noted _ _ _ _ _ hwatching => exact .inl ⟨observers, (hwatching slot).trans hthere, ho⟩
  | detached other _ _ hwatching =>
    rcases hwatching slot with hsame | ⟨before, _, hbefore, hafter⟩
    · exact .inl ⟨observers, hsame.trans hthere, ho⟩
    · rw [hthere] at hbefore
      cases hbefore
      -- Only the observer that is detached is filtered out.
      refine .inl ⟨_, hafter, List.mem_filter.mpr ⟨ho, decide_eq_true ?_⟩⟩
      rintro rfl
      exact hdetach rfl

/-- An observer goes on observing, or it is destroyed together with its view. -/
theorem attends_cases (h : ObserverEffect s s' command) (hpoll : command ≠ .poll o)
    (hdetach : command ≠ .detachObserver o) (hserial : o.serial < s.catalog.fresh)
    (hattached : s.WellAttached) (ho : Attends o s) :
    (s'.catalog.watch o = s.catalog.watch o ∧ Attends o s') ∨
      ((s'.catalog.watch o).destroyed = true ∧ ∃ view, o.view = some view ∧
        s'.observersAt view.slot = none) := by
  -- What it remembers tells the cases apart: nothing but the end of its view touches that.
  rcases h.watch_cases hpoll hserial with
    hsame | ⟨slot, observers, flat, hthere, hmem, hgone, hmarked⟩
  · by_cases hstays : ∀ view, o.view = some view → s'.observersAt view.slot ≠ none
    · refine .inl ⟨hsame, fun view hview => ?_⟩
      obtain ⟨hstore, hlive, observers, hthere, hmem⟩ := ho view hview
      have hafter := (h.exists_after hdetach hthere hmem).resolve_right
        fun hgone => hstays view hview hgone.1
      have hlive' := (h.isDestroyed_cases view).resolve_right fun hgone => hstays view hview hgone.2
      exact ⟨hstore.trans h.token_eq.symm, hlive'.trans hlive, hafter⟩
    · rw [not_forall] at hstays
      obtain ⟨view, hstays⟩ := hstays
      rw [Classical.not_imp, not_not] at hstays
      obtain ⟨hview, hgone⟩ := hstays
      obtain ⟨_, _, observers, hthere, hmem⟩ := ho view hview
      rcases h.exists_after hdetach hthere hmem with ⟨_, hafter, _⟩ | ⟨_, hmarked⟩
      · rw [hgone] at hafter
        cases hafter
      · refine .inr ⟨?_, view, hview, hgone⟩
        rw [hmarked]
  · obtain ⟨_, own, hown, hslot⟩ := hattached slot observers flat hthere o hmem
    refine .inr ⟨?_, own, hown, ?_⟩
    · rw [hmarked]
    · rwa [hslot]

theorem elsewhere (h : ObserverEffect s s' command) (hpoll : command ≠ .poll o)
    (hserial : o.serial < s.catalog.fresh) (hattached : s.WellAttached)
    (hgraph : o.graph ≠ s.store.token) : s'.catalog.watch o = s.catalog.watch o ∧
      ∀ view, view.store ≠ s.store.token →
        s'.catalog.isDestroyed view = s.catalog.isDestroyed view := by
  constructor
  · refine (h.watch_cases hpoll hserial).resolve_right ?_
    rintro ⟨slot, observers, flat, hthere, hmem, _⟩
    exact hgraph (hattached slot observers flat hthere o hmem).1
  · intro view hstore
    exact (h.isDestroyed_cases view).resolve_right fun hgone => hstore hgone.1

end ObserverEffect

end Session

end PropertyGraph

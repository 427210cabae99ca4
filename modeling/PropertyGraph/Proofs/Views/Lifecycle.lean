import PropertyGraph.Proofs.Views.Reaching

/-!
# The life of a view

In every run of a store each view that was made there is live or destroyed for good. A live one
has its slot to itself, and the record there is its own; one that is destroyed is found by no call
any more, whatever has been made in its slot since. Calls on one view are felt by no other.
-/

namespace PropertyGraph.ViewRun

open PropertyGraph.Action PropertyGraph.Session

variable {c c' : ViewRun} {s' : Session} {view other : View} {r : ViewRecord} {command : Command}
  {order : List Nat}

def Live (c : ViewRun) (view : View) : Prop :=
  view ∈ c.views ∧ c.session.catalog.isDestroyed view = false

/-- The view is destroyed. A call that is given it changes nothing, and one that must find it is
refused, for this reason if all else is in order. -/
structure RefusesAll (c : ViewRun) (view : View) : Prop where
  destroyed : c.session.catalog.isDestroyed view = true
  idle : ∀ command : Command, view ∈ command.views → command.perform c.session = c.session
  refused : ∀ command : Command, view ∈ command.seeks → ∃ fault,
    command.act c.session = (.error fault, c.session) ∧
      (command.InOrder view c.session → fault = .viewDestroyed view.slot ∧ fault.kind = .usage)
  unanswered : ∀ question : ViewQuestion, ∃ fault, question.put c.session view = .error fault ∧
    ((∀ node, question.grouped? = some node → c.session.containsNode node = true) →
      fault = .viewDestroyed view.slot ∧ fault.kind = .usage)

/-- Nothing has changed but one view and who is attached to it. -/
structure OthersKept (c : ViewRun) (view : View) (s' : Session) : Prop where
  store : s'.store = { c.session.store with views := s'.store.views }
  catalog : s'.catalog = { c.session.catalog with
    destroyedViews := s'.catalog.destroyedViews
    watches := s'.catalog.watches
    events := s'.catalog.events }
  others : ∀ other ∈ c.views, other ≠ view →
    s'.viewRecord other = c.session.viewRecord other
  visible : ∀ other, other ≠ view →
    (s'.store.views.visible = some other ↔ c.session.store.views.visible = some other)
  watch : ∀ o : Observer, o.view ≠ some view → s'.catalog.watch o = c.session.catalog.watch o

/-- What holds of the views at any time. -/
structure Lifecycle (c : ViewRun) : Prop where
  /-- Once destroyed, a view refuses every call for good. -/
  collapsedAB : ∀ view ∈ c.views, c.session.catalog.isDestroyed view = true →
    ∀ later, c.Leads later → later.RefusesAll view
  /-- A view is live when it is made, and was not there before. -/
  made : ∀ command : Command, (∀ view ∈ command.views, c.Known view) →
    ∀ view ∈ made c.session command, view ∉ c.views ∧ (c.after command).Live view
  /-- The record of a live view is its own. -/
  live : ∀ view, c.Live view → ∃ r, c.session.viewRecord view = .ok r ∧ r.view = view
  unique : ∀ view other, c.Live view → c.Live other → view.slot = other.slot → view = other
  /-- No record is ever missing. -/
  found : ∀ view, c.Known view → ∀ slot, c.session.viewRecord view ≠ .error (.viewMissing slot)
  /-- A call that edits or destroys a view is felt by no other. -/
  apart : ∀ (command : Command) (view : View), c.Known view → command.edited? = some view →
    c.OthersKept view (command.perform c.session)
  visible : ∀ view, c.session.store.views.visible = some view → c.Live view
  /-- With a view go those who are attached to it. -/
  marked : ∀ view, c.Live view → ∃ s', destroyView view c.session = (.ok (), s') ∧
    s'.catalog.isDestroyed view = true ∧ ∀ o : Observer, (s'.catalog.watch o).destroyed = true ↔
      (c.session.catalog.watch o).destroyed = true ∨ o ∈ c.observers ∧ o.view = some view

theorem viewSlot_of_destroyed {s : Session} (hstore : view.store = s.store.token)
    (hgone : s.catalog.isDestroyed view = true) :
    s.viewSlot view = .error (.viewDestroyed view.slot) := by
  rw [viewSlot, if_neg (not_not.mpr hstore), if_pos hgone]

theorem viewRecord_congr {s s' : Session} (htoken : s'.store.token = s.store.token)
    (hdestroyed : s'.catalog.isDestroyed view = s.catalog.isDestroyed view)
    (hget : s'.store.views.arena.get? view.slot = s.store.views.arena.get? view.slot) :
    s'.viewRecord view = s.viewRecord view := by
  have hslot : s'.viewSlot view = s.viewSlot view := by
    rw [viewSlot, htoken, hdestroyed, viewSlot]
  rw [viewRecord, hslot, viewRecord]
  cases h : s.viewSlot view with
  | error fault => rfl
  | ok slot =>
    rw [(live_of_viewSlot h).2.2] at hget
    rw [ok_bind, ok_bind, hget]

theorem refusesAll_of_destroyed (hstore : view.store = c.session.store.token)
    (hgone : c.session.catalog.isDestroyed view = true) : c.RefusesAll view := by
  have hslot := viewSlot_of_destroyed hstore hgone
  refine ⟨hgone, fun command => perform_of_unreached hslot command, fun command hseeks => ?_,
    fun question => ?_⟩
  · obtain ⟨fault, hrun, hreason⟩ := refuses_act hslot command hseeks
    refine ⟨fault, hrun, fun hin => ?_⟩
    rw [hreason hin]
    exact ⟨rfl, rfl⟩
  · obtain ⟨fault, hrun, hreason⟩ := put_of_unreached hslot question
    refine ⟨fault, hrun, fun hstored => ?_⟩
    rw [hreason hstored]
    exact ⟨rfl, rfl⟩

namespace Sound

theorem exists_record (h : c.Sound) (hlive : c.Live view) :
    ∃ r, c.session.viewRecord view = .ok r ∧ r.view = view := by
  obtain ⟨hview, hstays⟩ := hlive
  obtain ⟨r, hget, hown⟩ := Option.map_eq_some_iff.mp (h.held view hview hstays)
  exact ⟨r, viewRecord_of_live (h.made view hview).1 hstays hget, hown⟩

theorem slot_inj (h : c.Sound) (hview : c.Live view) (hother : c.Live other)
    (hslot : view.slot = other.slot) : view = other := by
  have hheld := h.held view hview.1 hview.2
  rw [hslot, h.held other hother.1 hother.2] at hheld
  exact (Option.some.inj hheld).symm

theorem found (h : c.Sound) (hknown : c.Known view) (slot : Nat) :
    c.session.viewRecord view ≠ .error (.viewMissing slot) := by
  intro hmissing
  by_cases hstore : view.store = c.session.store.token
  · cases hgone : c.session.catalog.isDestroyed view with
    | true =>
      rw [viewRecord_of_unreached (viewSlot_of_destroyed hstore hgone)] at hmissing
      cases hmissing
    | false =>
      obtain ⟨r, hr, -⟩ := h.exists_record ⟨hknown hstore, hgone⟩
      cases hr.symm.trans hmissing
  · have hslot : c.session.viewSlot view = .error .foreignView := by rw [viewSlot, if_pos hstore]
    rw [viewRecord_of_unreached hslot] at hmissing
    cases hmissing

theorem viewRecord_of_ne (h : c.Sound) (hlive : c.Live view) (hother : other ∈ c.views)
    (hne : other ≠ view) (htoken : s'.store.token = c.session.store.token)
    (hdestroyed : s'.catalog.isDestroyed other = c.session.catalog.isDestroyed other)
    (hrecord : ∀ i, i ≠ view.slot →
      s'.store.views.arena.get? i = c.session.store.views.arena.get? i) :
    s'.viewRecord other = c.session.viewRecord other := by
  have hstore := (h.made other hother).1
  cases hgone : c.session.catalog.isDestroyed other with
  | true =>
    rw [viewRecord_of_unreached (viewSlot_of_destroyed hstore hgone),
      viewRecord_of_unreached (viewSlot_of_destroyed (hstore.trans htoken.symm)
        (hdestroyed.trans hgone))]
  | false =>
    refine viewRecord_congr htoken hdestroyed (hrecord _ fun hslot => hne ?_)
    exact h.slot_inj ⟨hother, hgone⟩ hlive hslot

theorem othersKept_of_confined (h : c.Sound) (hlive : c.Live view)
    (hconfined : Confined view.slot c.session s') : c.OthersKept view s' := by
  refine ⟨hconfined.store, ?_, fun other hother hne => ?_, fun other _ => ?_, fun o _ => ?_⟩
  · rw [hconfined.catalog]
  · refine h.viewRecord_of_ne hlive hother hne ?_ ?_ hconfined.record
    · rw [hconfined.store]
    · rw [hconfined.catalog]
  · rw [hconfined.visible]
  · rw [hconfined.catalog]

theorem othersKept_of_removesView (h : c.Sound) (hknown : c.Known view)
    (hr : c.session.viewRecord view = .ok r) (hdestroys : RemovesView c.session s' view r) :
    c.OthersKept view s' := by
  obtain ⟨hview, hstays, -, hobservers⟩ := h.eq_of_viewRecord hknown hr
  refine ⟨hdestroys.store, hdestroys.catalog, fun other hother hne => ?_, fun other hne => ?_,
    fun o hne => ?_⟩
  · refine h.viewRecord_of_ne ⟨hview, hstays⟩ hother hne hdestroys.token ?_
      fun i hi => (hdestroys.record i).trans (if_neg hi)
    rw [hdestroys.isDestroyed, beq_eq_false_iff_ne.mpr (Ne.symm hne), Bool.false_or]
  · rw [hdestroys.visible]
    split
    · next hvisible =>
      rw [hvisible, Option.some.injEq]
      exact iff_of_false nofun (Ne.symm hne)
    · rfl
  · rw [hdestroys.watch, if_neg]
    intro ho
    rw [hobservers] at ho
    exact hne (of_decide_eq_true (List.mem_filter.mp ho).2)

theorem apart (h : c.Sound) (hknown : c.Known view) (hedited : command.edited? = some view) :
    c.OthersKept view (command.perform c.session) := by
  obtain ⟨order, hs⟩ := h.consistent
  cases hslot : c.session.viewSlot view with
  | error fault =>
    rw [perform_of_unreached hslot command (Command.mem_views_of_edited hedited)]
    exact ⟨rfl, rfl, fun _ _ _ => rfl, fun _ _ => .rfl, fun _ _ => rfl⟩
  | ok slot =>
    obtain ⟨hstore, hstays, -⟩ := live_of_viewSlot hslot
    have hlive : c.Live view := ⟨hknown hstore, hstays⟩
    obtain ⟨r, hr, -⟩ := h.exists_record hlive
    by_cases hkeeps : command = .destroyView view
    · subst hkeeps
      rcases destroyView_cases hs view with ⟨fault, hfault, -⟩ | ⟨r', s', hr', hrun, hdestroys⟩
      · cases hr.symm.trans hfault
      · change c.OthersKept view (destroyView view c.session).2
        rw [hrun]
        exact h.othersKept_of_removesView hknown hr' hdestroys
    · exact h.othersKept_of_confined hlive (confined_perform command hedited hkeeps)

theorem marked (h : c.Sound) (hlive : c.Live view) : ∃ s',
    destroyView view c.session = (.ok (), s') ∧ s'.catalog.isDestroyed view = true ∧
      ∀ o : Observer, (s'.catalog.watch o).destroyed = true ↔
        (c.session.catalog.watch o).destroyed = true ∨ o ∈ c.observers ∧ o.view = some view := by
  obtain ⟨order, hs⟩ := h.consistent
  obtain ⟨r, hr, -⟩ := h.exists_record hlive
  rcases destroyView_cases hs view with ⟨fault, hfault, -⟩ | ⟨r', s', hr', hrun, hdestroys⟩
  · cases hr.symm.trans hfault
  · obtain ⟨-, -, -, hobservers⟩ := h.eq_of_viewRecord (fun _ => hlive.1) hr'
    refine ⟨s', hrun, ?_, fun o => ?_⟩
    · rw [hdestroys.isDestroyed, beq_self_eq_true, Bool.true_or]
    · have hmem : o ∈ r'.observers ↔ o ∈ c.observers ∧ o.view = some view := by
        rw [hobservers, List.mem_filter, decide_eq_true_eq]
      rw [hdestroys.watch, ← hmem]
      split
      · next ho => exact iff_of_true rfl (.inr ho)
      · next ho => exact ⟨.inl, fun hor => hor.resolve_right ho⟩

theorem live_of_placeView (h : c.Sound) (hs : c.session.Consistent order) (hierarchical : Bool)
    (base : Option ViewRecord)
    (hmade : view ∈ (placeView hierarchical base c.session).1.toOption.toList) :
    view ∉ c.views ∧ (placeView hierarchical base c.session).2.catalog.isDestroyed view = false := by
  rcases placeView_cases hs hierarchical base with ⟨fault, hrun⟩ | ⟨new, flat, s', hrun, hplaced⟩
  · rw [hrun] at hmade
    cases hmade
  · rw [hrun] at hmade ⊢
    cases List.mem_singleton.mp hmade
    refine ⟨h.notMem_of_fresh hplaced.serial, (hplaced.isDestroyed view).trans ?_⟩
    exact h.not_destroyed_of_fresh hplaced.store hplaced.serial

theorem live_of_made (h : c.Sound) (hmade : view ∈ ViewRun.made c.session command) :
    view ∉ c.views ∧ (c.after command).Live view := by
  obtain ⟨order, hs⟩ := h.consistent
  have hafter : view ∉ c.views ∧ (command.perform c.session).catalog.isDestroyed view = false := by
    cases command with
    | createView hierarchical => exact h.live_of_placeView hs hierarchical none hmade
    | createViewFrom base =>
      change view ∈ (createViewFrom base c.session).1.toOption.toList at hmade
      change _ ∧ (createViewFrom base c.session).2.catalog.isDestroyed view = false
      rcases createViewFrom_cases base c.session with ⟨fault, hrun⟩ | ⟨r, -, hrun⟩
      · rw [hrun] at hmade
        cases hmade
      · rw [hrun] at hmade ⊢
        exact h.live_of_placeView hs base.hierarchical (some r) hmade
    | _ => cases hmade
  exact ⟨hafter.1, List.mem_append_right _ hmade, hafter.2⟩

end Sound

theorem lifecycle (h : Reachable c) : c.Lifecycle where
  collapsedAB := fun view hview hgone later hleads => by
    obtain ⟨hview', hgone'⟩ := hleads.destroyed h.sound hview hgone
    exact refusesAll_of_destroyed ((hleads.sound h.sound).made view hview').1 hgone'
  made := fun command _ view hmade => h.sound.live_of_made hmade
  live := fun view hlive => h.sound.exists_record hlive
  unique := fun view other => h.sound.slot_inj
  found := fun view hknown => h.sound.found hknown
  apart := fun command view hknown hedited => h.sound.apart hknown hedited
  visible := h.sound.visible
  marked := fun view hlive => h.sound.marked hlive

def departed : View := { serial := 0, store := 0, slot := 0, hierarchical := false }

def successor : View := { serial := 1, store := 0, slot := 0, hierarchical := true }

def recycled : ViewRun :=
  ((ViewRun.after { session := .opened } (.createView false)).after (.destroyView departed)).after
    (.createView true)

theorem reachable_recycled : Reachable recycled := by
  have hopened : Reachable { session := .opened } :=
    .opened 0 {} _ {} rfl fun view _ => Std.HashSet.contains_empty
  have hmade := Reachable.step _ _ hopened (.called (.createView false) nofun)
  refine .step _ _ (.step _ _ hmade (.called (.destroyView departed) fun view hview _ => ?_))
    (.called (.createView true) nofun)
  rw [List.mem_singleton.mp hview]
  exact List.mem_singleton_self departed

/-- The view that went stays destroyed though its slot is taken again. -/
theorem lifecycle_recycled : Reachable recycled ∧ recycled.views = [departed, successor] ∧
    recycled.session.catalog.isDestroyed departed = true ∧ departed.slot = successor.slot ∧
    recycled.Lifecycle :=
  ⟨reachable_recycled, by decide +kernel, by decide +kernel, rfl, lifecycle reachable_recycled⟩

end PropertyGraph.ViewRun

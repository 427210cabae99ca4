import Mathlib.Logic.Relation
import PropertyGraph.Proofs.Observing.Watching

/-!
# Views and their slots

A slot is used again when its view is destroyed, so a handle may outlive its record, and a later
view may lie in the same slot. A run of a store keeps the views made there and the observers made
there and not detached. At any time a view is destroyed or lies in its slot, and whoever is attached
to a record was made for the view that lies there.
-/

namespace PropertyGraph

/-- The views that a call is given, itself or as the view of an observer. -/
def Command.views : Command → List View
  | .createViewFrom view | .destroyView view | .fillView view | .clearView view
  | .viewAddNode view _ | .viewAddNodes view _ | .viewAddEdge view _ | .viewRemoveNode view _
  | .viewRemoveEdge view _ | .viewComplement view | .setViewInterval view _
  | .setViewAttribute view _ _ | .removeViewAttribute view _ | .group view _ _ | .ungroup view _
  | .collapse view _ | .expand view _ => [view]
  | .viewUnion view other | .viewIntersection view other => [view, other]
  | .setVisibleView view | .createObserver view _ => view.toList
  | .poll observer | .detachObserver observer => observer.view.toList
  | _ => []

/-- A store at work, with the views made there and the observers made there and not detached. -/
structure ViewRun where
  session : Session
  views : List View := []
  observers : List Observer := []

namespace ViewRun

open PropertyGraph.Action PropertyGraph.Session

def made (s : Session) : Command → List View
  | .createView hierarchical => (createView hierarchical s).1.toOption.toList
  | .createViewFrom base => (createViewFrom base s).1.toOption.toList
  | _ => []

/-- The observers that a call leaves, of those there were and those it makes. -/
def left (s : Session) (observers : List Observer) : Command → List Observer
  | .createObserver view keepsDiff =>
    observers ++ (createObserver view keepsDiff s).1.toOption.toList
  | .detachObserver observer => observers.filter (· ≠ observer)
  | _ => observers

def after (c : ViewRun) (command : Command) : ViewRun where
  session := command.perform c.session
  views := c.views ++ made c.session command
  observers := left c.session c.observers command

def Known (c : ViewRun) (view : View) : Prop := view.store = c.session.store.token → view ∈ c.views

/-- A call on the store, or what happens elsewhere. A call is given views that were made here or are
of other stores; what happens elsewhere destroys no view of this store. -/
inductive Step (c : ViewRun) : ViewRun → Prop where
  | called (command : Command) (hknown : ∀ view ∈ command.views, c.Known view) :
    Step c (c.after command)
  | elsewhere (catalog : Catalog)
    (hnodes : ∀ (node : Node) n,
      c.session.catalog.nodeHomes[node]? = some ⟨c.session.store.token, n⟩ →
        catalog.nodeHomes[node]? = some ⟨c.session.store.token, n⟩)
    (hedges : ∀ (edge : Edge) i,
      c.session.catalog.edgeHomes[edge]? = some ⟨c.session.store.token, i⟩ →
        catalog.edgeHomes[edge]? = some ⟨c.session.store.token, i⟩)
    (hfresh : c.session.catalog.fresh ≤ catalog.fresh)
    (hdestroyed : ∀ view, view.store = c.session.store.token →
      catalog.isDestroyed view = c.session.catalog.isDestroyed view) :
    Step c { c with session := { c.session with catalog } }

/-- What can come of a store that was just opened. -/
inductive Reachable : ViewRun → Prop where
  | opened (token : Nat) (config : Config) (store : Store) (catalog : Catalog)
    (hopen : Store.open? token config = .ok store)
    (hunused : ∀ view, view.store = token → catalog.isDestroyed view = false) :
    Reachable { session := { catalog, store } }
  | step (c c' : ViewRun) (h : Reachable c) (hstep : Step c c') : Reachable c'

/-- Each view is destroyed or lies in its slot, and nothing else lies there. -/
structure Sound (c : ViewRun) : Prop where
  consistent : ∃ order, c.session.Consistent order
  made : ∀ view ∈ c.views,
    view.store = c.session.store.token ∧ view.serial < c.session.catalog.fresh
  old : ∀ view, view.store = c.session.store.token → c.session.catalog.isDestroyed view = true →
    view.serial < c.session.catalog.fresh
  held : ∀ view ∈ c.views, c.session.catalog.isDestroyed view = false →
    c.session.holder view.slot = some view
  holds : ∀ slot view, c.session.holder slot = some view →
    view ∈ c.views ∧ view.slot = slot ∧ c.session.catalog.isDestroyed view = false
  visible : ∀ view, c.session.store.views.visible = some view →
    view ∈ c.views ∧ c.session.catalog.isDestroyed view = false
  attached : ∀ slot view observers flat, c.session.holder slot = some view →
    c.session.observersAt slot = some (observers, flat) →
      observers = c.observers.filter (·.view = some view)
  observed : ∀ o ∈ c.observers, ∀ view, o.view = some view → view ∈ c.views

variable {c c' : ViewRun} {s' : Session} {view : View} {slot : Nat} {r : ViewRecord} {flat : Bool}
  {o : Observer} {command : Command} {order : List Nat}

namespace Sound

theorem opened {token : Nat} {config : Config} {store : Store} {catalog : Catalog}
    (hopen : Store.open? token config = .ok store)
    (hunused : ∀ view, view.store = token → catalog.isDestroyed view = false) :
    Sound { session := { catalog, store } } := by
  have hconsistent : Session.Consistent { catalog, store } [] := consistent_opened hopen
  cases store_of_open? hopen
  have hnone : ∀ slot, holder { catalog, store := .empty token config } slot = none := fun slot =>
    congrArg (Option.map _) Arena.get?_empty
  refine ⟨⟨[], hconsistent⟩, nofun, fun view hstore hgone => ?_, nofun, fun slot view hholder => ?_,
    nofun, fun slot view _ _ hholder => ?_, nofun⟩
  · cases (hunused view hstore).symm.trans hgone
  · cases (hnone slot).symm.trans hholder
  · cases (hnone slot).symm.trans hholder

theorem of_held (h : c.Sound) (hconsistent : ∃ order, c'.session.Consistent order)
    (htoken : c'.session.store.token = c.session.store.token)
    (hfresh : c.session.catalog.fresh ≤ c'.session.catalog.fresh)
    (hdestroyed : ∀ view, view.store = c.session.store.token →
      c'.session.catalog.isDestroyed view = c.session.catalog.isDestroyed view)
    (hholder : ∀ slot, c'.session.holder slot = c.session.holder slot)
    (hviews : c'.views = c.views)
    (hvisible : ∀ view, c'.session.store.views.visible = some view →
      view ∈ c.views ∧ c.session.catalog.isDestroyed view = false)
    (hattached : ∀ slot view observers flat, c.session.holder slot = some view →
      c'.session.observersAt slot = some (observers, flat) →
        observers = c'.observers.filter (·.view = some view))
    (hobserved : ∀ o ∈ c'.observers, ∀ view, o.view = some view → view ∈ c.views) : c'.Sound := by
  have hsame : ∀ view ∈ c.views,
      c'.session.catalog.isDestroyed view = c.session.catalog.isDestroyed view :=
    fun view hview => hdestroyed view (h.made view hview).1
  constructor
  case consistent => exact hconsistent
  case made =>
    intro view hview
    rw [hviews] at hview
    obtain ⟨hstore, hserial⟩ := h.made view hview
    exact ⟨hstore.trans htoken.symm, hserial.trans_le hfresh⟩
  case old =>
    intro view hstore hgone
    rw [htoken] at hstore
    rw [hdestroyed view hstore] at hgone
    exact (h.old view hstore hgone).trans_le hfresh
  case held =>
    intro view hview hlive
    rw [hviews] at hview
    rw [hsame view hview] at hlive
    exact (hholder _).trans (h.held view hview hlive)
  case holds =>
    intro slot view hthere
    rw [hholder] at hthere
    obtain ⟨hview, hslot, hlive⟩ := h.holds slot view hthere
    exact ⟨hviews ▸ hview, hslot, (hsame view hview).trans hlive⟩
  case visible =>
    intro view hthere
    obtain ⟨hview, hlive⟩ := hvisible view hthere
    exact ⟨hviews ▸ hview, (hsame view hview).trans hlive⟩
  case attached =>
    intro slot view observers flat hthere
    rw [hholder] at hthere
    exact hattached slot view observers flat hthere
  case observed =>
    intro o ho view hview
    rw [hviews]
    exact hobserved o ho view hview

theorem selected (h : c.Sound) (hwatches : KeepsWatches c.session s')
    (hholder : ∀ slot, s'.holder slot = c.session.holder slot)
    (hvisible : ∀ view, s'.store.views.visible = some view →
      view ∈ c.views ∧ c.session.catalog.isDestroyed view = false)
    (hconsistent : ∃ order, s'.Consistent order) : Sound { c with session := s' } :=
  h.of_held hconsistent hwatches.token (Nat.le_of_eq hwatches.catalog.fresh.symm)
    (fun view _ => hwatches.catalog.isDestroyed_eq view) hholder rfl hvisible
    (fun slot view observers flat hthere hwatching =>
      h.attached slot view observers flat hthere ((hwatches.observersAt slot) ▸ hwatching)) h.observed

theorem of_keepsObservers (h : c.Sound) (hpassive : KeepsObservers c.session s')
    (hconsistent : ∃ order, s'.Consistent order) :
    Sound { c with session := s' } :=
  h.selected hpassive.toKeepsWatches hpassive.holder
    (fun view hthere => h.visible view (hpassive.visible ▸ hthere))
    hconsistent

theorem of_store (h : c.Sound) (hstore : s'.store = c.session.store)
    (hfresh : c.session.catalog.fresh ≤ s'.catalog.fresh)
    (hdestroyed : ∀ view, view.store = c.session.store.token →
      s'.catalog.isDestroyed view = c.session.catalog.isDestroyed view)
    (hconsistent : ∃ order, s'.Consistent order) : Sound { c with session := s' } := by
  refine h.of_held hconsistent (congrArg Store.token hstore) hfresh hdestroyed (fun slot => ?_) rfl
    (fun view hthere => ?_) (fun slot view observers flat hholder hwatching => ?_) h.observed
  · rw [holder, hstore, holder]
  · rw [hstore] at hthere
    exact h.visible view hthere
  · rw [observersAt, hstore] at hwatching
    exact h.attached slot view observers flat hholder hwatching

theorem of_unmade (h : c.Sound) : Sound { c with views := c.views ++ [] } := by
  rwa [List.append_nil]

/-! A handle that is new is neither known nor destroyed. -/

theorem notMem_of_fresh (h : c.Sound) (hserial : view.serial = c.session.catalog.fresh) :
    view ∉ c.views := fun hview => by
  have := (h.made view hview).2
  omega

theorem not_destroyed_of_fresh (h : c.Sound) (hstore : view.store = c.session.store.token)
    (hserial : view.serial = c.session.catalog.fresh) :
    c.session.catalog.isDestroyed view = false := by
  refine Bool.eq_false_of_not_eq_true fun hgone => ?_
  have := h.old view hstore hgone
  omega

theorem placed (h : c.Sound) (hplaced : Placed c.session s' view flat)
    (hconsistent : ∃ order, s'.Consistent order) :
    Sound { c with session := s', views := c.views ++ [view] } := by
  have hnew := h.notMem_of_fresh hplaced.serial
  have hlive := h.not_destroyed_of_fresh hplaced.store hplaced.serial
  have hfree : c.session.holder view.slot = none := by
    rw [holder, hplaced.free, Option.map_none]
  have hfresh := hplaced.fresh
  constructor
  case consistent => exact hconsistent
  case made =>
    intro other hother
    rw [hplaced.token]
    rcases List.mem_append.mp hother with hother | hother
    · obtain ⟨hstore, hserial⟩ := h.made other hother
      exact ⟨hstore, by dsimp only; omega⟩
    · rw [List.mem_singleton.mp hother]
      exact ⟨hplaced.store, by have := hplaced.serial; dsimp only; omega⟩
  case old =>
    intro other hstore hgone
    rw [hplaced.token] at hstore
    rw [hplaced.isDestroyed] at hgone
    have := h.old other hstore hgone
    dsimp only
    omega
  case held =>
    intro other hother hstays
    rw [hplaced.isDestroyed] at hstays
    rw [hplaced.holder]
    rcases List.mem_append.mp hother with hother | hother
    · have hheld := h.held other hother hstays
      rw [if_neg, hheld]
      intro hslot
      rw [hslot, hfree] at hheld
      cases hheld
    · rw [List.mem_singleton.mp hother, if_pos rfl]
  case holds =>
    intro slot other hthere
    rw [hplaced.holder] at hthere
    rw [hplaced.isDestroyed]
    split at hthere
    · next hslot =>
      cases hthere
      exact ⟨List.mem_append_right _ (List.mem_singleton_self view), hslot.symm, hlive⟩
    · obtain ⟨hview, hslot, hstays⟩ := h.holds slot other hthere
      exact ⟨List.mem_append_left _ hview, hslot, hstays⟩
  case visible =>
    intro other hthere
    rw [hplaced.visible] at hthere
    rw [hplaced.isDestroyed]
    obtain ⟨hview, hstays⟩ := h.visible other hthere
    exact ⟨List.mem_append_left _ hview, hstays⟩
  case attached =>
    intro slot other observers flat hthere hwatching
    rw [hplaced.holder] at hthere
    rw [hplaced.observersAt] at hwatching
    split at hthere
    · next hslot =>
      cases hthere
      rw [if_pos hslot] at hwatching
      cases hwatching
      refine (List.filter_eq_nil_iff.mpr fun o ho hview => hnew ?_).symm
      exact h.observed o ho view (of_decide_eq_true hview)
    · next hslot =>
      rw [if_neg hslot] at hwatching
      exact h.attached slot other observers flat hthere hwatching
  case observed =>
    intro o ho other hother
    exact List.mem_append_left _ (h.observed o ho other hother)

theorem eq_of_viewRecord (h : c.Sound) (hknown : c.Known view)
    (hr : c.session.viewRecord view = .ok r) :
    view ∈ c.views ∧ c.session.catalog.isDestroyed view = false ∧ r.view = view ∧
      r.observers = c.observers.filter (·.view = some view) := by
  obtain ⟨hstore, hlive⟩ := live_of_viewRecord hr
  have hview := hknown hstore
  have hheld := h.held view hview hlive
  have hattached := h.attached view.slot view r.observers _ hheld (observersAt_of_viewRecord hr)
  rw [holder, get?_of_viewRecord hr, Option.map_some, Option.some.injEq] at hheld
  exact ⟨hview, hlive, hheld, hattached⟩

theorem removesView (h : c.Sound) (hknown : c.Known view) (hr : c.session.viewRecord view = .ok r)
    (hdestroys : RemovesView c.session s' view r) (hconsistent : ∃ order, s'.Consistent order) :
    Sound { c with session := s' } := by
  obtain ⟨hview, hlive, -, -⟩ := h.eq_of_viewRecord hknown hr
  have hheld := h.held view hview hlive
  have hholder : ∀ i, s'.holder i = if i = view.slot then none else c.session.holder i := by
    intro i
    rw [Session.holder, hdestroys.record]
    split <;> rfl
  constructor
  case consistent => exact hconsistent
  case made =>
    intro other hother
    rw [hdestroys.token, hdestroys.fresh]
    exact h.made other hother
  case old =>
    intro other hstore hgone
    rw [hdestroys.token] at hstore
    rw [hdestroys.fresh]
    rw [hdestroys.isDestroyed, Bool.or_eq_true, beq_iff_eq] at hgone
    rcases hgone with rfl | hgone
    · exact (h.made view hview).2
    · exact h.old other hstore hgone
  case held =>
    intro other hother hstays
    rw [hdestroys.isDestroyed, Bool.or_eq_false_iff, beq_eq_false_iff_ne] at hstays
    have hthere := h.held other hother hstays.2
    rw [hholder, if_neg, hthere]
    intro hslot
    rw [hslot, hheld] at hthere
    exact hstays.1 (Option.some.inj hthere)
  case holds =>
    intro slot other hthere
    rw [hholder] at hthere
    split at hthere
    · cases hthere
    · next hslot =>
      obtain ⟨hother, hsame, hstays⟩ := h.holds slot other hthere
      refine ⟨hother, hsame, ?_⟩
      rw [hdestroys.isDestroyed, hstays, Bool.or_false, beq_eq_false_iff_ne]
      rintro rfl
      exact hslot hsame.symm
  case visible =>
    intro other hthere
    rw [hdestroys.visible] at hthere
    split at hthere
    · cases hthere
    · next hvisible =>
      obtain ⟨hother, hstays⟩ := h.visible other hthere
      refine ⟨hother, ?_⟩
      rw [hdestroys.isDestroyed, hstays, Bool.or_false, beq_eq_false_iff_ne]
      rintro rfl
      exact hvisible hthere
  case attached =>
    intro slot other observers flat hthere hwatching
    rw [hholder] at hthere
    rw [hdestroys.observersAt] at hwatching
    split at hthere
    · cases hthere
    · next hslot =>
      rw [if_neg hslot] at hwatching
      exact h.attached slot other observers flat hthere hwatching
  case observed => exact h.observed

theorem attaches (h : c.Sound) (hattaches : Attaches c.session s' o)
    (hfresh : c.session.catalog.fresh ≤ s'.catalog.fresh)
    (hdestroyed : ∀ view, s'.catalog.isDestroyed view = c.session.catalog.isDestroyed view)
    (hview : ∀ view, o.view = some view → view ∈ c.views)
    (hlive : ∀ view, o.view = some view → c.session.catalog.isDestroyed view = false)
    (hconsistent : ∃ order, s'.Consistent order) :
    Sound { c with session := s', observers := c.observers ++ [o] } := by
  refine h.of_held hconsistent hattaches.token hfresh (fun view _ => hdestroyed view)
    hattaches.holder rfl
    (fun view hthere => ?_) (fun slot view observers flat hholder hwatching => ?_)
    fun other hother view hobserves => ?_
  · exact h.visible view (hattaches.visible ▸ hthere)
  · obtain ⟨hknown, hslot, -⟩ := h.holds slot view hholder
    rw [List.filter_append]
    rw [hattaches.observersAt] at hwatching
    by_cases hown : o.view = some view
    · rw [if_pos (by rw [hown, Option.map_some, hslot])] at hwatching
      obtain ⟨⟨before, _⟩, hbefore, heq⟩ := Option.map_eq_some_iff.mp hwatching
      cases heq
      rw [h.attached slot view before _ hholder hbefore, List.filter_singleton,
        decide_eq_true hown]
      rfl
    · have hslot' : o.view.map (·.slot) ≠ some slot := by
        intro hsame
        obtain ⟨other, hother, hsame⟩ := Option.map_eq_some_iff.mp hsame
        have hheld := h.held other (hview other hother) (hlive other hother)
        rw [hsame, hholder] at hheld
        exact hown (hother.trans hheld.symm)
      rw [if_neg hslot'] at hwatching
      rw [List.filter_singleton, decide_eq_false hown]
      exact (h.attached slot view observers flat hholder hwatching).trans (List.append_nil _).symm
  · rcases List.mem_append.mp hother with hother | hother
    · exact h.observed other hother view hobserves
    · rw [List.mem_singleton.mp hother] at hobserves
      exact hview view hobserves

theorem detached (h : c.Sound) (hdetaches : Detaches c.session s' o)
    (hknown : ∀ view, o.view = some view → c.Known view)
    (hconsistent : ∃ order, s'.Consistent order) :
    Sound { c with session := s', observers := c.observers.filter (· ≠ o) } := by
  refine h.of_held hconsistent hdetaches.token (Nat.le_of_eq ?_) (fun view _ => ?_) hdetaches.holder rfl
    (fun view hthere => ?_) (fun slot view observers flat hholder hwatching => ?_)
    fun other hother => h.observed other (List.mem_of_mem_filter hother)
  · exact congrArg Catalog.fresh hdetaches.catalog.symm
  · exact congrArg (·.isDestroyed view) hdetaches.catalog
  · exact h.visible view (hdetaches.visible ▸ hthere)
  · obtain ⟨hview, hslot, hlive⟩ := h.holds slot view hholder
    rw [List.filter_comm]
    by_cases hown : o.view = some view
    · obtain ⟨r, hget, -⟩ := Option.map_eq_some_iff.mp hholder
      rw [← hslot] at hget
      have hr := viewRecord_of_live (h.made view hview).1 hlive hget
      have hafter := hdetaches.own view r hown hr
      rw [hslot, hwatching, Option.some.injEq, Prod.mk.injEq] at hafter
      rw [hafter.1, h.attached slot view r.observers _ hholder (hslot ▸ observersAt_of_viewRecord hr)]
    · rw [hdetaches.others slot] at hwatching
      · rw [h.attached slot view observers flat hholder hwatching]
        refine (List.filter_eq_self.mpr fun other hother => decide_eq_true ?_).symm
        rintro rfl
        exact hown (of_decide_eq_true (List.mem_filter.mp hother).2)
      · rintro other r hother hr rfl
        obtain ⟨-, -, hheld, -⟩ := h.eq_of_viewRecord (hknown other hother) hr
        rw [holder, get?_of_viewRecord hr, Option.map_some, hheld] at hholder
        exact hown (hother.trans hholder)

theorem of_placeView (h : c.Sound) (hs : c.session.Consistent order) (hierarchical : Bool)
    (base : Option ViewRecord)
    (hconsistent : ∃ order, (placeView hierarchical base c.session).2.Consistent order) :
    Sound { c with
      session := (placeView hierarchical base c.session).2
      views := c.views ++ (placeView hierarchical base c.session).1.toOption.toList } := by
  rcases placeView_cases hs hierarchical base with ⟨fault, hrun⟩ | ⟨view, flat, s', hrun, hplaced⟩
  · rw [hrun]
    exact h.of_unmade
  · rw [hrun] at hconsistent ⊢
    exact h.placed hplaced hconsistent

theorem of_createObserver (h : c.Sound) (view : Option View) (keepsDiff : Bool)
    (hknown : ∀ own, view = some own → c.Known own)
    (hconsistent : ∃ order, (createObserver view keepsDiff c.session).2.Consistent order) :
    Sound { c with
      session := (createObserver view keepsDiff c.session).2
      observers := c.observers ++ (createObserver view keepsDiff c.session).1.toOption.toList } := by
  rcases createObserver_cases view keepsDiff c.session with
    ⟨fault, hrun⟩ | ⟨s', version, hrun, hcreates⟩
  · rw [hrun]
    change Sound { c with observers := c.observers ++ [] }
    rwa [List.append_nil]
  · rw [hrun] at hconsistent ⊢
    have hreached : ∀ own, view = some own → own ∈ c.views ∧
        c.session.catalog.isDestroyed own = false := by
      rintro own rfl
      obtain ⟨r, hr, -⟩ := viewRecord_of_versionOf hcreates.versionOf_eq
      obtain ⟨hstore, hlive⟩ := live_of_viewRecord hr
      exact ⟨hknown own rfl hstore, hlive⟩
    obtain ⟨snapshot, -, hcatalog⟩ := hcreates.catalog
    refine h.attaches hcreates.toAttaches ?_ (fun other => ?_) (fun own hown => (hreached own hown).1)
      (fun own hown => (hreached own hown).2) hconsistent
    · rw [hcatalog]
      exact Nat.le_succ _
    · rw [hcatalog]
      rfl

theorem of_setVisibleView (h : c.Sound) (view : Option View)
    (hknown : ∀ own, view = some own → c.Known own)
    (hconsistent : ∃ order, (setVisibleView view c.session).2.Consistent order) :
    Sound { c with session := (setVisibleView view c.session).2 } := by
  refine h.selected (keepsWatches_setVisibleView view c.session) (fun slot => ?_) (fun own hown => ?_)
    hconsistent
  · rcases setVisibleView_cases view c.session with ⟨_, _, _, _, hrun⟩ | ⟨_, hrun⟩
    · rw [hrun]
    · rw [hrun]
      rfl
  · rcases setVisibleView_cases view c.session with ⟨_, _, _, _, hrun⟩ | ⟨hslot, hrun⟩
    · rw [hrun] at hown
      exact h.visible own hown
    · rw [hrun] at hown
      obtain ⟨slot, hslot⟩ := hslot own hown
      obtain ⟨hstore, hlive, -⟩ := live_of_viewSlot hslot
      exact ⟨hknown own hown hstore, hlive⟩

theorem of_createViewFrom (h : c.Sound) (hs : c.session.Consistent order) (base : View)
    (hconsistent : ∃ order, (createViewFrom base c.session).2.Consistent order) :
    Sound { c with
      session := (createViewFrom base c.session).2
      views := c.views ++ (createViewFrom base c.session).1.toOption.toList } := by
  rcases createViewFrom_cases base c.session with ⟨fault, hrun⟩ | ⟨r, -, hrun⟩
  · rw [hrun]
    exact h.of_unmade
  · rw [hrun] at hconsistent ⊢
    exact h.of_placeView hs base.hierarchical (some r) hconsistent

theorem of_destroyView (h : c.Sound) (hs : c.session.Consistent order) (view : View)
    (hknown : c.Known view)
    (hconsistent : ∃ order, (destroyView view c.session).2.Consistent order) :
    Sound { c with session := (destroyView view c.session).2 } := by
  rcases destroyView_cases hs view with ⟨fault, -, hrun⟩ | ⟨r, s', hr, hrun, hdestroys⟩
  · rwa [hrun]
  · rw [hrun] at hconsistent ⊢
    exact h.removesView hknown hr hdestroys hconsistent

theorem of_poll (h : c.Sound) (observer : Observer)
    (hconsistent : ∃ order, (poll observer c.session).2.Consistent order) :
    Sound { c with session := (poll observer c.session).2 } := by
  rcases poll_cases observer c.session with ⟨fault, -, hrun⟩ | ⟨_, _, s', -, hrun, heditsWatch, -⟩
  · rwa [hrun]
  · rw [hrun] at hconsistent ⊢
    refine h.of_store heditsWatch.store (Nat.le_of_eq heditsWatch.fresh.symm) (fun view _ => ?_)
      hconsistent
    rw [Catalog.isDestroyed, heditsWatch.destroyedViews, Catalog.isDestroyed]

theorem called (h : c.Sound) (command : Command) (hknown : ∀ view ∈ command.views, c.Known view) :
    (c.after command).Sound := by
  obtain ⟨order, hs⟩ := h.consistent
  have hconsistent := exists_consistent_perform hs command
  have hown : ∀ view : Option View, command.views = view.toList →
      ∀ own, view = some own → c.Known own := by
    rintro view hsame own rfl
    exact hknown own (hsame ▸ List.mem_singleton_self own)
  cases command with
  | createView hierarchical => exact h.of_placeView hs hierarchical none hconsistent
  | createViewFrom base => exact h.of_createViewFrom hs base hconsistent
  | destroyView view =>
    exact (h.of_destroyView hs view (hknown view List.mem_cons_self) hconsistent).of_unmade
  | setVisibleView view => exact (h.of_setVisibleView view (hown view rfl) hconsistent).of_unmade
  | createObserver view keepsDiff =>
    exact (h.of_createObserver view keepsDiff (hown view rfl) hconsistent).of_unmade
  | poll observer => exact (h.of_poll observer hconsistent).of_unmade
  | detachObserver observer =>
    exact (h.detached (detaches_detachObserver observer c.session) (hown observer.view rfl)
      hconsistent).of_unmade
  | _ => exact (h.of_keepsObservers (keepsObservers_perform hs _ rfl) hconsistent).of_unmade

theorem step (h : c.Sound) (hstep : Step c c') : c'.Sound := by
  cases hstep with
  | called command hknown => exact h.called command hknown
  | elsewhere catalog hnodes hedges hfresh hdestroyed =>
    obtain ⟨order, hs⟩ := h.consistent
    have hquiet : Quiet c.session { c.session with catalog } :=
      ⟨rfl, rfl, rfl, rfl, rfl, hnodes, hedges⟩
    exact h.of_store rfl hfresh hdestroyed ⟨order, hquiet.consistent hs⟩

end Sound

theorem Reachable.sound (h : Reachable c) : c.Sound := by
  induction h with
  | opened token config store catalog hopen hunused => exact .opened hopen hunused
  | step c c' _ hstep ih => exact ih.step hstep

/-! ### What is destroyed stays destroyed -/

theorem Step.destroyed (hstep : Step c c') (h : c.Sound) (hview : view ∈ c.views)
    (hgone : c.session.catalog.isDestroyed view = true) :
    view ∈ c'.views ∧ c'.session.catalog.isDestroyed view = true := by
  cases hstep with
  | called command hknown =>
    obtain ⟨order, hs⟩ := h.consistent
    exact ⟨List.mem_append_left _ hview, (observerEffect_perform hs command).isDestroyed_of hgone⟩
  | elsewhere catalog hnodes hedges hfresh hdestroyed =>
    exact ⟨hview, (hdestroyed view (h.made view hview).1).trans hgone⟩

def Leads (c c' : ViewRun) : Prop := Relation.ReflTransGen Step c c'

theorem Leads.sound (hleads : c.Leads c') (h : c.Sound) : c'.Sound := by
  induction hleads with
  | refl => exact h
  | tail _ hstep ih => exact ih.step hstep

theorem Leads.destroyed (hleads : c.Leads c') (h : c.Sound) (hview : view ∈ c.views)
    (hgone : c.session.catalog.isDestroyed view = true) :
    view ∈ c'.views ∧ c'.session.catalog.isDestroyed view = true := by
  induction hleads with
  | refl => exact ⟨hview, hgone⟩
  | tail hmiddle hstep ih => exact hstep.destroyed (Leads.sound hmiddle h) ih.1 ih.2

end ViewRun

end PropertyGraph

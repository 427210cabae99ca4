import PropertyGraph.Proofs.Observing.FlatViews
import PropertyGraph.Proofs.Session.Accepted
import PropertyGraph.Proofs.Session.Framed

/-!
# Who is attached

An observer is attached to the record of its view, and the catalog has what it remembers. The calls
on elements and labels, and those that edit a view, leave attached who is attached and remembered
what is remembered. They leave every view in its slot, too, and the visible one visible.
-/

namespace PropertyGraph

/-! ### What the catalog remembers -/

namespace Catalog

variable {c : Catalog} {observer o : Observer}

theorem watch_modifyWatch (c : Catalog) (observer : Observer) (f : Watch → Watch) (o : Observer) :
    (c.modifyWatch observer f).watch o = if o = observer then f (c.watch o) else c.watch o := by
  unfold modifyWatch watch
  rw [Std.HashMap.getD_insert]
  by_cases hsame : o = observer
  · rw [if_pos (by simpa using hsame.symm), if_pos hsame, hsame]
  · rw [if_neg (by simpa using Ne.symm hsame), if_neg hsame]

theorem watch_foldl_destroyObserver (observers : List Observer) (c : Catalog) (o : Observer) :
    (observers.foldl destroyObserver c).watch o =
      if o ∈ observers then { c.watch o with destroyed := true } else c.watch o := by
  induction observers generalizing c with
  | nil => rfl
  | cons observer rest ih =>
    rw [List.foldl_cons, ih, destroyObserver, watch_modifyWatch]
    by_cases hsame : o = observer
    · simp [hsame]
    · simp [hsame]

theorem isDestroyed_insert (c : Catalog) (view other : View) :
    ({ c with destroyedViews := c.destroyedViews.insert view }).isDestroyed other =
      (view == other || c.isDestroyed other) := by
  unfold isDestroyed
  rw [Std.HashSet.contains_insert]

/-- Nothing changes but where elements are at home, and what is known of elements and listeners. -/
structure SameWatches (c c' : Catalog) : Prop where
  fresh : c'.fresh = c.fresh
  watches : c'.watches = c.watches
  destroyedViews : c'.destroyedViews = c.destroyedViews

namespace SameWatches

variable {c' c'' : Catalog}

theorem refl (c : Catalog) : SameWatches c c := ⟨rfl, rfl, rfl⟩

theorem trans (h : SameWatches c c') (h' : SameWatches c' c'') : SameWatches c c'' :=
  ⟨h'.fresh.trans h.fresh, h'.watches.trans h.watches, h'.destroyedViews.trans h.destroyedViews⟩

theorem watch_eq (h : SameWatches c c') (o : Observer) : c'.watch o = c.watch o := by
  rw [watch, h.watches, watch]

theorem isDestroyed_eq (h : SameWatches c c') (view : View) :
    c'.isDestroyed view = c.isDestroyed view := by
  rw [isDestroyed, h.destroyedViews, isDestroyed]

theorem foldl {α : Type} {f : Catalog → α → Catalog} (hf : ∀ c x, SameWatches c (f c x)) (xs : List α)
    (c : Catalog) : SameWatches c (xs.foldl f c) := by
  induction xs generalizing c with
  | nil => exact .refl c
  | cons x rest ih => exact (hf c x).trans (ih (f c x))

theorem tell (event : Event) (c : Catalog) (listener : Listener) :
    SameWatches c (c.tell event listener) := by
  rw [Catalog.tell]
  split <;> exact ⟨rfl, rfl, rfl⟩

end SameWatches

end Catalog

def Command.isPassive : Command → Bool
  | .createView _ | .createViewFrom _ | .destroyView _ | .setVisibleView _ | .createObserver _ _
  | .poll _ | .detachObserver _ => false
  | _ => true

namespace Session

open PropertyGraph.Action

variable {α : Type} {s s' s'' : Session} {order : List Nat} {view : View} {r r' : ViewRecord}

/-- Who is attached to the record in a slot, and whether it is of a flat view. -/
def observersAt (s : Session) (slot : Nat) : Option (List Observer × Bool) :=
  (s.store.views.arena.get? slot).map fun r => (r.observers, r.groups.isNone)

def holder (s : Session) (slot : Nat) : Option View := (s.store.views.arena.get? slot).map (·.view)

/-- Those who are attached stay so, and remember what they did. -/
structure KeepsWatches (s s' : Session) : Prop where
  token : s'.store.token = s.store.token
  catalog : s.catalog.SameWatches s'.catalog
  observersAt : ∀ slot, s'.observersAt slot = s.observersAt slot

theorem KeepsWatches.refl (s : Session) : KeepsWatches s s := ⟨rfl, .refl _, fun _ => rfl⟩

/-- Besides, the views stay in their slots, and the same one is visible. -/
structure KeepsObservers (s s' : Session) : Prop extends KeepsWatches s s' where
  holder : ∀ slot, s'.holder slot = s.holder slot
  visible : s'.store.views.visible = s.store.views.visible
  observers : s'.store.observers = s.store.observers

namespace KeepsObservers

theorem refl (s : Session) : KeepsObservers s s := ⟨.refl s, fun _ => rfl, rfl, rfl⟩

theorem trans (h : KeepsObservers s s') (h' : KeepsObservers s' s'') : KeepsObservers s s'' where
  token := h'.token.trans h.token
  catalog := h.catalog.trans h'.catalog
  observersAt := fun slot => (h'.observersAt slot).trans (h.observersAt slot)
  holder := fun slot => (h'.holder slot).trans (h.holder slot)
  visible := h'.visible.trans h.visible
  observers := h'.observers.trans h.observers

theorem of_views (htoken : s'.store.token = s.store.token) (hcatalog : s.catalog.SameWatches s'.catalog)
    (hviews : s'.store.views = s.store.views) (hobservers : s'.store.observers = s.store.observers) :
    KeepsObservers s s' where
  token := htoken
  catalog := hcatalog
  observersAt := fun _ => by rw [Session.observersAt, hviews, Session.observersAt]
  holder := fun _ => by rw [Session.holder, hviews, Session.holder]
  visible := by rw [hviews]
  observers := hobservers

theorem told (h : KeepsObservers s s') (nodes edges : Bool) (event : Event) :
    KeepsObservers s ((s'.bumpIf nodes edges).tell event) := by
  refine h.trans (.of_views rfl ?_ rfl rfl)
  exact .foldl (Catalog.SameWatches.tell event) s'.store.listeners s'.catalog

end KeepsObservers

theorem Framed.keepsObservers (h : Framed s s') : KeepsObservers s s' where
  token := congrArg (·.store.token) h.setting_eq
  catalog := ⟨congrArg (·.catalog.fresh) h.setting_eq, congrArg (·.catalog.watches) h.setting_eq,
    congrArg (·.catalog.destroyedViews) h.setting_eq⟩
  observersAt := by
    intro slot
    have hread : ∀ t : Session, t.observersAt slot = ((t.store.views.arena.get? slot).map
        ViewRecord.setting).map fun r => (r.observers, r.groups.isNone) := by
      intro t
      rw [Session.observersAt, Option.map_map]
      exact congrArg (Option.map · _) (funext fun r => Prod.ext rfl Option.isNone_map.symm)
    rw [hread, hread, h.record_eq]
  holder := by
    intro slot
    have hread : ∀ t : Session, t.holder slot = ((t.store.views.arena.get? slot).map
        ViewRecord.setting).map (·.view) := by
      intro t
      rw [Session.holder, Option.map_map]
      rfl
    rw [hread, hread, h.record_eq]
  visible := congrArg (·.store.views.visible) h.setting_eq
  observers := congrArg (·.store.observers) h.setting_eq

/-! ### Elements -/

theorem keepsObservers_addNode (hs : s.Consistent order) (node : Node) :
    KeepsObservers s (addNode node s).2 := by
  rcases addNode_cases hs node with ⟨answer, h⟩ | ⟨slot, nodes, event, _, _, _, _, _, _, h⟩
  · rw [h]
    exact .refl s
  · rw [h]
    refine .told ?_ _ _ _
    exact .of_views rfl ⟨rfl, rfl, rfl⟩ rfl rfl

theorem keepsObservers_addEdge (hs : s.Consistent order) (edge : Edge) :
    KeepsObservers s (addEdge edge s).2 := by
  rcases addEdge_cases edge s with ⟨fault, h⟩ | ⟨h, _⟩ | ⟨source, target, _, _, _, _, h⟩
  · rw [h]
    exact .refl s
  · rw [h]
    exact .refl s
  · rw [h]
    obtain ⟨labels, _, _, ⟨fault, h⟩ | ⟨slot, label, arena, event, t, _, _, _, _, _, hlink, h⟩⟩ :=
      placeEdge_run hs edge source target
    · rw [h]
      exact .of_views rfl (.refl _) rfl rfl
    · rw [h]
      refine .told ?_ _ _ _
      refine .of_views ?_ ⟨rfl, rfl, rfl⟩ ?_ ?_
      · change t.token = s.store.token
        rw [hlink, Store.token_link]
      · change t.views = s.store.views
        rw [hlink, Store.views_link]
      · change t.observers = s.store.observers
        rw [hlink, Store.link_eq]

theorem keepsObservers_removeEdge (edge : Edge) (s : Session) : KeepsObservers s (removeEdge edge s).2 :=
  (framed_removeEdge edge s).keepsObservers

theorem keepsObservers_removeNode (hs : s.Consistent order) (node : Node) :
    KeepsObservers s (removeNode node s).2 := (framed_removeNode hs node).keepsObservers

theorem keepsObservers_clear (s : Session) : KeepsObservers s (clear s).2 :=
  (framed_clear s).keepsObservers

theorem keepsObservers_clearEdges (s : Session) : KeepsObservers s (clearEdges s).2 :=
  (framed_clearEdges s).keepsObservers

theorem keepsObservers_countEach {α : Type} {call : α → Action Bool} (hs : s.Consistent order)
    (hcall : ∀ s order, s.Consistent order → ∀ x, KeepsObservers s (call x s).2)
    (hleft : ∀ s order, s.Consistent order → ∀ x, ∃ order', (call x s).2.Consistent order')
    (xs : List α) : KeepsObservers s (countEach call xs s).2 :=
  countEach_relates KeepsObservers .refl .trans
    (fun s order hs x => ⟨hcall s order hs x, hleft s order hs x⟩) hs xs

/-! ### Labels -/

theorem keepsObservers_onStore {step : Store → Except Fault α × Store}
    (htoken : (step s.store).2.token = s.store.token)
    (hviews : (step s.store).2.views = s.store.views)
    (hobservers : (step s.store).2.observers = s.store.observers) :
    (onStore step).Leads s (KeepsObservers s) := by
  rw [Leads, onStore_apply]
  exact .of_views htoken (.refl _) hviews hobservers

theorem keepsObservers_addLabel (label : String) (s : Session) :
    KeepsObservers s (addLabel label s).2 := by
  refine keepsObservers_onStore ?_ ?_ ?_
  all_goals
    rcases s.store.labels.add label with ⟨answer, labels⟩
    rfl

theorem keepsObservers_removeLabel (label : String) (s : Session) :
    KeepsObservers s (removeLabel label s).2 := by
  rw [removeLabel]
  refine Leads.get_bind ?_
  by_cases hused : 0 < s.edgeCountOf label
  · simp only [hused, if_true]
    exact KeepsObservers.refl s
  · simp only [hused, if_false]
    exact keepsObservers_onStore rfl rfl rfl

theorem keepsObservers_removeLabelId (id : Int) (s : Session) :
    KeepsObservers s (removeLabelId id s).2 := by
  rw [removeLabelId]
  refine Leads.get_bind ?_
  by_cases hused : 0 < s.edgeCountOfId id
  · simp only [hused, if_true]
    exact KeepsObservers.refl s
  · simp only [hused, if_false]
    exact keepsObservers_onStore rfl rfl rfl

/-! ### Views -/

theorem observersAt_setRecord (hr : s.store.views.arena.get? view.slot = some r) (slot : Nat) :
    (s.setRecord view r').observersAt slot =
      if slot = view.slot then some (r'.observers, r'.groups.isNone) else s.observersAt slot := by
  rw [observersAt, get?_setRecord hr]
  split <;> rfl

theorem holder_setRecord (hr : s.store.views.arena.get? view.slot = some r) (slot : Nat) :
    (s.setRecord view r').holder slot = if slot = view.slot then some r'.view else s.holder slot := by
  rw [holder, get?_setRecord hr]
  split <;> rfl

theorem keepsObservers_editView {edit : ViewRecord → Except Fault (α × ViewRecord)}
    (hedit : ∀ (r : ViewRecord) answer r', edit r = .ok (answer, r') →
      r'.view = r.view ∧ r'.observers = r.observers ∧ r'.groups.isNone = r.groups.isNone) :
    (editView view edit).Leads s (KeepsObservers s) := by
  rcases editView_cases view edit s with ⟨fault, h⟩ | ⟨r, answer, r', hrecord, hdone, h⟩
  · rw [Leads, h]
    exact .refl s
  · rw [Leads, h]
    have hr := get?_of_viewRecord hrecord
    obtain ⟨hview, hobservers, hgroups⟩ := hedit r answer r' hdone
    refine ⟨⟨rfl, .refl _, fun slot => ?_⟩, fun slot => ?_, rfl, rfl⟩
    · rw [observersAt_setRecord hr, hobservers, hgroups]
      split
      · next heq => rw [heq, observersAt, hr, Option.map_some]
      · rfl
    · rw [holder_setRecord hr, hview]
      split
      · next heq => rw [heq, holder, hr, Option.map_some]
      · rfl

theorem keepsObservers_editView_ok {f : ViewRecord → α × ViewRecord}
    (hf : ∀ r : ViewRecord, (f r).2.view = r.view ∧ (f r).2.observers = r.observers ∧
      (f r).2.groups.isNone = r.groups.isNone) :
    (editView view fun r => .ok (f r)).Leads s (KeepsObservers s) := by
  refine keepsObservers_editView fun r answer r' hdone => ?_
  have hone := hf r
  rw [Except.ok.injEq] at hdone
  rwa [hdone] at hone

theorem keepsObservers_changeView {f : ViewRecord → ViewRecord}
    (hf : ∀ r : ViewRecord, (f r).view = r.view ∧ (f r).observers = r.observers ∧
      (f r).groups.isNone = r.groups.isNone) : (changeView view f).Leads s (KeepsObservers s) :=
  keepsObservers_editView_ok hf

theorem keepsObservers_editGroups (edit : GroupForest Nat → Except Fault (α × Bool × GroupForest Nat)) :
    (editGroups view edit).Leads s (KeepsObservers s) := by
  refine keepsObservers_editView fun r answer r' hdone => ?_
  rw [groupsOf] at hdone
  cases hgroups : r.groups with
  | none =>
    rw [hgroups] at hdone
    cases hdone
  | some f =>
    rw [hgroups, ok_bind] at hdone
    cases hedit : edit f with
    | error fault =>
      rw [hedit] at hdone
      cases hdone
    | ok edited =>
      rw [hedit] at hdone
      cases hdone
      exact ⟨rfl, rfl, rfl⟩

theorem keepsObservers_editGroupAt (node : Node)
    (edit : GroupForest Nat → Nat → Bool × GroupForest Nat) :
    (editGroupAt view node edit).Leads s (KeepsObservers s) :=
  .ask_bind (.refl s) fun _ _ => keepsObservers_editGroups _

theorem keepsObservers_viewAddNode (view : View) (node : Node) (s : Session) :
    KeepsObservers s (viewAddNode view node s).2 :=
  Leads.ask_bind (P := KeepsObservers s) (.refl s) fun _ _ =>
    keepsObservers_editView_ok fun _ => ⟨rfl, rfl, rfl⟩

theorem keepsObservers_viewAddNodes (view : View) (nodes : List Node) (s : Session) :
    KeepsObservers s (viewAddNodes view nodes s).2 := by
  induction nodes generalizing s with
  | nil => exact .refl s
  | cons node rest ih =>
    rw [viewAddNodes]
    refine bind_snd (P := KeepsObservers s) (keepsObservers_viewAddNode view node s) fun added s' h => ?_
    have hfirst := keepsObservers_viewAddNode view node s
    rw [h] at hfirst
    exact Leads.map_answer (a := viewAddNodes view rest) (P := KeepsObservers s) (hfirst.trans (ih s')) _

theorem keepsObservers_viewAddEdge (view : View) (edge : Edge) (s : Session) :
    KeepsObservers s (viewAddEdge view edge s).2 := by
  rw [viewAddEdge]
  refine Leads.ask_bind (P := KeepsObservers s) (.refl s) fun _ _ =>
    keepsObservers_editView_ok fun r => ?_
  unfold ViewRecord.addEdge
  split <;> exact ⟨rfl, rfl, rfl⟩

theorem keepsObservers_viewRemoveNode (view : View) (node : Node) (s : Session) :
    KeepsObservers s (viewRemoveNode view node s).2 := by
  rw [viewRemoveNode]
  refine Leads.ask_bind (P := KeepsObservers s) (.refl s) fun _ _ =>
    .get_bind (keepsObservers_editView_ok fun r => ?_)
  unfold ViewRecord.removeNode
  split <;> exact ⟨rfl, rfl, rfl⟩

theorem keepsWatches_setVisibleView (view : Option View) (s : Session) :
    KeepsWatches s (setVisibleView view s).2 := by
  rcases setVisibleView_cases view s with ⟨_, _, _, _, h⟩ | ⟨_, h⟩
  · rw [h]
    exact .refl s
  · rw [h]
    exact ⟨rfl, .refl _, fun _ => rfl⟩

/-! ### All of them -/

theorem keepsObservers_perform (hs : s.Consistent order) (command : Command)
    (hpassive : command.isPassive = true) :
    KeepsObservers s (command.perform s) := by
  have hleft : ∀ (c : Command) s order, Session.Consistent s order →
      ∃ order', (c.perform s).Consistent order' :=
    fun c s order hs => exists_consistent_perform hs c
  cases command with
  | createView | createViewFrom | destroyView | setVisibleView | createObserver | poll
  | detachObserver => cases hpassive
  | addNode node => exact keepsObservers_addNode hs node
  | addEdge edge => exact keepsObservers_addEdge hs edge
  | removeNode node => exact keepsObservers_removeNode hs node
  | removeEdge edge => exact keepsObservers_removeEdge edge s
  | addNodes nodes =>
    exact keepsObservers_countEach hs (fun s order hs => keepsObservers_addNode hs)
      (fun s order hs node => hleft (.addNode node) s order hs) nodes
  | removeNodes nodes =>
    exact keepsObservers_countEach hs (fun s order hs => keepsObservers_removeNode hs)
      (fun s order hs node => hleft (.removeNode node) s order hs) nodes
  | retainNodes keep =>
    exact keepsObservers_countEach hs (fun s order hs => keepsObservers_removeNode hs)
      (fun s order hs node => hleft (.removeNode node) s order hs) _
  | addEdges edges =>
    exact keepsObservers_countEach hs (fun s order hs => keepsObservers_addEdge hs)
      (fun s order hs edge => hleft (.addEdge edge) s order hs) edges
  | removeEdges edges =>
    exact keepsObservers_countEach hs (fun s order hs edge => keepsObservers_removeEdge edge s)
      (fun s order hs edge => hleft (.removeEdge edge) s order hs) edges
  | retainEdges keep =>
    exact keepsObservers_countEach hs (fun s order hs edge => keepsObservers_removeEdge edge s)
      (fun s order hs edge => hleft (.removeEdge edge) s order hs) _
  | clear => exact keepsObservers_clear s
  | clearEdges => exact keepsObservers_clearEdges s
  | addLabel label => exact keepsObservers_addLabel label s
  | removeLabel label => exact keepsObservers_removeLabel label s
  | removeLabelId id => exact keepsObservers_removeLabelId id s
  | fillView view =>
    exact Leads.get_bind (P := KeepsObservers s) (keepsObservers_changeView fun _ => ⟨rfl, rfl, rfl⟩)
  | clearView view => exact keepsObservers_changeView fun _ => ⟨rfl, rfl, rfl⟩
  | viewAddNode view node => exact keepsObservers_viewAddNode view node s
  | viewAddNodes view nodes => exact keepsObservers_viewAddNodes view nodes s
  | viewAddEdge view edge => exact keepsObservers_viewAddEdge view edge s
  | viewRemoveNode view node => exact keepsObservers_viewRemoveNode view node s
  | viewRemoveEdge view edge =>
    exact Leads.ask_bind (P := KeepsObservers s) (.refl s) fun _ _ =>
      keepsObservers_editView_ok fun _ => ⟨rfl, rfl, rfl⟩
  | viewUnion view other | viewIntersection view other =>
    exact Leads.ask_bind (P := KeepsObservers s) (.refl s) fun _ _ =>
      keepsObservers_changeView fun _ => ⟨rfl, rfl, rfl⟩
  | viewComplement view =>
    exact Leads.get_bind (P := KeepsObservers s) (keepsObservers_changeView fun _ => ⟨rfl, rfl, rfl⟩)
  | setViewInterval view interval => exact keepsObservers_changeView fun _ => ⟨rfl, rfl, rfl⟩
  | setViewAttribute view name value =>
    exact keepsObservers_editView fun _ _ _ hdone => by cases hdone; exact ⟨rfl, rfl, rfl⟩
  | removeViewAttribute view name =>
    exact keepsObservers_editView fun _ _ _ hdone => by cases hdone; exact ⟨rfl, rfl, rfl⟩
  | group view node members =>
    exact Leads.ask_bind (P := KeepsObservers s) (.refl s) fun _ _ =>
      .ask_bind (.refl s) fun _ _ => keepsObservers_editGroups _
  | ungroup view node => exact keepsObservers_editGroupAt node _
  | collapse view node => exact keepsObservers_editGroupAt node _
  | expand view node => exact keepsObservers_editGroupAt node _
  | registerListener listener => exact .of_views rfl (.refl _) rfl rfl
  | unregisterListener listener => exact .of_views rfl (.refl _) rfl rfl
  | setDefaults provider => exact .of_views rfl (.refl _) rfl rfl

end Session

end PropertyGraph

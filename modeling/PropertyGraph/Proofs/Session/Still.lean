import PropertyGraph.Proofs.Session.History

/-!
# Calls that leave the elements alone

Calls on labels, views, groups, observers and listeners change nothing in the tables of nodes and
edges, nor any home, and what listeners hear of them is not about elements. Nothing is assumed of
the session here: such a call goes from one session to another by steps of which none touches the
elements, whatever the session is.
-/

namespace PropertyGraph

/-! ### What listeners hear -/

def Event.isOfView : Event → Bool
  | .viewDestroyed _ _ => true
  | _ => false

namespace Catalog

variable {listener : Listener} {event : Event}

theorem heard_tell (c : Catalog) (other : Listener) : (c.tell event other).heard listener =
    if other = listener ∧ listener.quiet = false then (c.heard listener).push event
    else c.heard listener := by
  rw [Catalog.tell]
  by_cases heq : other = listener
  · subst heq
    cases hquiet : other.quiet with
    | true => simp
    | false =>
      rw [if_neg Bool.false_ne_true, if_pos ⟨rfl, rfl⟩, heard]
      exact Std.HashMap.getD_insert_self
  · rw [if_neg (c := other = listener ∧ _) fun h => heq h.1]
    split
    · rfl
    · change (c.events.insert other _).getD listener #[] = _
      rw [Std.HashMap.getD_insert, if_neg (by simpa using heq), heard]

/-- A listener hears of an event as often as it was added, or not at all if it is quiet. -/
theorem heard_foldl_tell (listeners : List Listener) (c : Catalog) :
    ((listeners.foldl (Catalog.tell event) c).heard listener).toList = (c.heard listener).toList ++
      List.replicate (if listener.quiet then 0 else listeners.count listener) event := by
  induction listeners generalizing c with
  | nil => simp
  | cons other rest ih =>
    rw [List.foldl_cons, ih, heard_tell, List.count_cons]
    cases hquiet : listener.quiet with
    | true => simp
    | false =>
      by_cases heq : other = listener
      · simp [heq, List.replicate_succ]
      · simp [heq]

theorem events_foldl {α : Type} {f : Catalog → α → Catalog} (hf : ∀ c x, (f c x).events = c.events)
    (xs : List α) (c : Catalog) : (xs.foldl f c).events = c.events := by
  induction xs generalizing c with
  | nil => rfl
  | cons x rest ih => rw [List.foldl_cons, ih, hf]

theorem heard_congr {c c' : Catalog} (h : c'.events = c.events) : c'.heard listener = c.heard listener :=
  congrArg (·.getD listener #[]) h

end Catalog

/-- Whether a call touches neither elements nor the list of listeners. -/
def Command.isAside : Command → Bool
  | .addNode _ | .removeNode _ | .addEdge _ | .removeEdge _ | .addNodes _ | .removeNodes _
  | .retainNodes _ | .addEdges _ | .removeEdges _ | .retainEdges _ | .clear | .clearEdges
  | .registerListener _ | .unregisterListener _ => false
  | _ => true

namespace Session

open PropertyGraph.Action

variable {α β : Type} {s s' s'' : Session}

/-- The elements and their homes are the same. -/
structure Still (s s' : Session) : Prop where
  token : s'.store.token = s.store.token
  nodes : s'.store.nodes = s.store.nodes
  edges : s'.store.edges = s.store.edges
  nodeHomes : s'.catalog.nodeHomes = s.catalog.nodeHomes
  edgeHomes : s'.catalog.edgeHomes = s.catalog.edgeHomes

namespace Still

theorem refl (s : Session) : Still s s := ⟨rfl, rfl, rfl, rfl, rfl⟩

theorem trans (h : Still s s') (h' : Still s' s'') : Still s s'' where
  token := h'.token.trans h.token
  nodes := h'.nodes.trans h.nodes
  edges := h'.edges.trans h.edges
  nodeHomes := h'.nodeHomes.trans h.nodeHomes
  edgeHomes := h'.edgeHomes.trans h.edgeHomes

theorem tell (s : Session) (event : Event) : Still s (s.tell event) := by
  obtain ⟨hnodes, hedges⟩ := homes_foldl_tell event s.store.listeners s.catalog
  exact ⟨rfl, rfl, rfl, hnodes, hedges⟩

theorem told (s : Session) (nodes edges : Bool) (event : Event) :
    Still s ((s.bumpIf nodes edges).tell event) := by
  have hbump : Still s (s.bumpIf nodes edges) := ⟨rfl, rfl, rfl, rfl, rfl⟩
  exact hbump.trans (tell _ event)

end Still

/-- The elements and the listeners are the same, and whatever was heard was not about elements. -/
structure Aside (s s' : Session) : Prop extends Still s s' where
  listeners : s'.store.listeners = s.store.listeners
  heard : ∀ listener, ∃ log : List Event,
    (s'.catalog.heard listener).toList = (s.catalog.heard listener).toList ++ log ∧
      ∀ event ∈ log, event.isOfView = true

namespace Aside

theorem of_unheard (h : Still s s') (hlisteners : s'.store.listeners = s.store.listeners)
    (hevents : s'.catalog.events = s.catalog.events) : Aside s s' :=
  ⟨h, hlisteners, fun listener => ⟨[], by rw [Catalog.heard_congr hevents, List.append_nil], nofun⟩⟩

theorem refl (s : Session) : Aside s s := .of_unheard (.refl s) rfl rfl

theorem trans (h : Aside s s') (h' : Aside s' s'') : Aside s s'' := by
  refine ⟨h.toStill.trans h'.toStill, h'.listeners.trans h.listeners, fun listener => ?_⟩
  obtain ⟨log, hlog, hviews⟩ := h.heard listener
  obtain ⟨log', hlog', hviews'⟩ := h'.heard listener
  refine ⟨log ++ log', by rw [hlog', hlog, List.append_assoc], fun event hevent => ?_⟩
  exact (List.mem_append.mp hevent).elim (hviews event) (hviews' event)

theorem tell (s : Session) {event : Event} (hview : event.isOfView = true) :
    Aside s (s.tell event) := by
  refine ⟨.tell s event, rfl, fun listener => ⟨_, Catalog.heard_foldl_tell _ _, ?_⟩⟩
  intro other hother
  rwa [List.eq_of_mem_replicate hother]

end Aside

/-- The action leaves elements and listeners alone, in every session. -/
def Stays (a : Action α) : Prop := ∀ s, Aside s (a s).2

namespace Stays

theorem pure (x : α) : Stays (Pure.pure x : Action α) := fun s => .refl s

theorem ask (question : Session → Except Fault α) : Stays (Action.ask question) := fun s => .refl s

theorem get : Stays (MonadState.get : Action Session) := fun s => .refl s

theorem throw (fault : Fault) : Stays (MonadExcept.throw fault : Action α) := fun s => .refl s

theorem change {f : Session → Session} (h : ∀ s, Aside s (f s)) : Stays (Action.change f) := h

theorem bind {a : Action α} {f : α → Action β} (ha : Stays a) (hf : ∀ x, Stays (f x)) :
    Stays (a >>= f) := by
  intro s
  refine bind_snd (P := Aside s) (ha s) fun x s' h => ?_
  have hfirst := ha s
  rw [h] at hfirst
  exact hfirst.trans (hf x s')

theorem discard {a : Action α} (h : Stays a) : Stays (discard a) := by
  intro s
  rw [discard_snd]
  exact h s

theorem onStore {step : Store → Except Fault α × Store}
    (h : ∀ t, (step t).2.token = t.token ∧ (step t).2.nodes = t.nodes ∧ (step t).2.edges = t.edges ∧
      (step t).2.listeners = t.listeners) : Stays (Action.onStore step) := by
  intro s
  obtain ⟨htoken, hnodes, hedges, hlisteners⟩ := h s.store
  exact .of_unheard ⟨htoken, hnodes, hedges, rfl, rfl⟩ hlisteners rfl

theorem editView (view : View) (edit : ViewRecord → Except Fault (α × ViewRecord)) :
    Stays (editView view edit) := by
  intro s
  rcases editView_cases view edit s with ⟨fault, h⟩ | ⟨r, answer, r', _, _, h⟩
  · rw [h]
    exact .refl s
  · rw [h]
    exact .of_unheard ⟨rfl, rfl, rfl, rfl, rfl⟩ rfl rfl

end Stays

/-! ### Labels -/

theorem stays_addLabel (label : String) : Stays (addLabel label) := by
  refine .onStore fun t => ?_
  rcases t.labels.add label with ⟨answer, labels⟩
  exact ⟨rfl, rfl, rfl, rfl⟩

theorem stays_removeLabel (label : String) : Stays (removeLabel label) := by
  refine .bind .get fun s => ?_
  by_cases hused : 0 < s.edgeCountOf label
  · simp only [hused, if_true]
    exact .bind (.throw _) fun _ => .onStore fun _ => ⟨rfl, rfl, rfl, rfl⟩
  · simp only [hused, if_false]
    exact .onStore fun _ => ⟨rfl, rfl, rfl, rfl⟩

theorem stays_removeLabelId (id : Int) : Stays (removeLabelId id) := by
  refine .bind .get fun s => ?_
  by_cases hused : 0 < s.edgeCountOfId id
  · simp only [hused, if_true]
    exact .bind (.throw _) fun _ => .onStore fun _ => ⟨rfl, rfl, rfl, rfl⟩
  · simp only [hused, if_false]
    exact .onStore fun _ => ⟨rfl, rfl, rfl, rfl⟩

/-! ### Views -/

theorem stays_placeView (hierarchical : Bool) (base : Option ViewRecord) :
    Stays (placeView hierarchical base) := by
  refine .bind .get fun s => .bind (.onStore fun t => ?_) fun slot => .bind (.change fun _ => ?_)
    fun _ => .pure _
  · exact ⟨rfl, rfl, rfl, rfl⟩
  · exact .of_unheard ⟨rfl, rfl, rfl, rfl, rfl⟩ rfl rfl

theorem stays_createViewFrom (base : View) : Stays (createViewFrom base) :=
  .bind (.ask _) fun record => stays_placeView base.hierarchical (some record)

theorem stays_destroyView (view : View) : Stays (destroyView view) := by
  refine .bind (.ask _) fun record => .bind (.change fun s => ?_) fun _ => .change fun s => .tell s rfl
  obtain ⟨hnodes, hedges⟩ := homes_foldl_destroyObserver record.observers
    { s.catalog with destroyedViews := s.catalog.destroyedViews.insert view }
  exact .of_unheard ⟨rfl, rfl, rfl, hnodes, hedges⟩ rfl
    (Catalog.events_foldl (f := Catalog.destroyObserver) (fun _ _ => rfl) _ _)

theorem stays_setVisibleView (view : Option View) : Stays (setVisibleView view) := by
  have hselect : Stays (change (·.withStore fun store =>
      { store with views := { store.views with visible := view } })) :=
    .change fun _ => .of_unheard ⟨rfl, rfl, rfl, rfl, rfl⟩ rfl rfl
  cases view with
  | none => exact hselect
  | some view => exact .bind (.discard (.ask _)) fun _ => hselect

theorem stays_viewAddNode (view : View) (node : Node) : Stays (viewAddNode view node) :=
  .bind (.ask _) fun _ => .editView _ _

theorem stays_viewAddNodes (view : View) (nodes : List Node) : Stays (viewAddNodes view nodes) := by
  induction nodes with
  | nil => exact .pure 0
  | cons node rest ih =>
    exact .bind (stays_viewAddNode view node) fun _ => .bind ih fun _ => .pure _

theorem stays_viewAddEdge (view : View) (edge : Edge) : Stays (viewAddEdge view edge) :=
  .bind (.ask _) fun _ => .editView _ _

theorem stays_viewRemoveNode (view : View) (node : Node) : Stays (viewRemoveNode view node) :=
  .bind (.ask _) fun _ => .bind .get fun _ => .editView _ _

theorem stays_viewRemoveEdge (view : View) (edge : Edge) : Stays (viewRemoveEdge view edge) :=
  .bind (.ask _) fun _ => .editView _ _

theorem stays_viewUnion (view other : View) : Stays (viewUnion view other) :=
  .bind (.ask _) fun _ => .editView _ _

theorem stays_viewIntersection (view other : View) : Stays (viewIntersection view other) :=
  .bind (.ask _) fun _ => .editView _ _

/-! ### Groups -/

theorem stays_group (view : View) (node : Node) (members : List Node) :
    Stays (group view node members) :=
  .bind (.ask _) fun _ => .bind (.ask _) fun _ => .editView _ _

theorem stays_editGroupAt (view : View) (node : Node)
    (edit : GroupForest Nat → Nat → Bool × GroupForest Nat) : Stays (editGroupAt view node edit) :=
  .bind (.ask _) fun _ => .editView _ _

/-! ### Who watches -/

theorem stays_attachObserver (observer : Observer) : Stays (attachObserver observer) := by
  rw [attachObserver]
  cases observer.view with
  | none => exact .change fun _ => .of_unheard ⟨rfl, rfl, rfl, rfl, rfl⟩ rfl rfl
  | some view => exact .editView _ _

theorem stays_createObserver (view : Option View) (keepsDiff : Bool) :
    Stays (createObserver view keepsDiff) := by
  have hattach : ∀ (observer : Observer) (f : Watch → Watch), Stays (do
      change (·.withCatalog fun catalog =>
        { catalog with fresh := catalog.fresh + 1 }.modifyWatch observer f)
      attachObserver observer
      return observer) := fun observer f =>
    .bind (.change fun _ => .of_unheard ⟨rfl, rfl, rfl, rfl, rfl⟩ rfl rfl) fun _ =>
      .bind (stays_attachObserver observer) fun _ => .pure observer
  refine .bind (.ask _) fun version => ?_
  cases keepsDiff with
  | false => exact .bind (.pure _) fun snapshot => .bind .get fun s => hattach _ _
  | true => exact .bind (.ask _) fun snapshot => .bind .get fun s => hattach _ _

theorem stays_poll (observer : Observer) : Stays (poll observer) := by
  have hwatch : ∀ f : Watch → Watch, Stays (change (·.withCatalog (·.modifyWatch observer f))) :=
    fun _ => .change fun _ => .of_unheard ⟨rfl, rfl, rfl, rfl, rfl⟩ rfl rfl
  rw [poll]
  refine .bind (.ask _) fun current => .bind .get fun s => ?_
  by_cases hseen : current = (s.catalog.watch observer).last
  · simp only [hseen, if_true]
    exact .bind (hwatch _) fun _ => .pure _
  · simp only [hseen, if_false]
    refine .bind (hwatch _) fun _ => ?_
    by_cases hkeeps : observer.keepsDiff
    · simp only [hkeeps, if_true]
      exact .bind (.ask _) fun now => .bind (hwatch _) fun _ => .pure _
    · simp only [hkeeps]
      exact .pure _

theorem aside_detachObserver (observer : Observer) (s : Session) :
    Aside s (s.detachObserver observer) := by
  rw [detachObserver]
  cases observer.view with
  | none => exact .of_unheard ⟨rfl, rfl, rfl, rfl, rfl⟩ rfl rfl
  | some view =>
    simp only
    cases s.viewRecord view with
    | error fault => exact .refl s
    | ok record => exact .of_unheard ⟨rfl, rfl, rfl, rfl, rfl⟩ rfl rfl

/-! ### All of them -/

theorem aside_perform (command : Command) (s : Session) (haside : command.isAside = true) :
    Aside s (command.perform s) := by
  cases command with
  | addNode | removeNode | addEdge | removeEdge | addNodes | removeNodes | retainNodes | addEdges
  | removeEdges | retainEdges | clear | clearEdges | registerListener | unregisterListener =>
    cases haside
  | addLabel label => exact stays_addLabel label s
  | removeLabel label => exact stays_removeLabel label s
  | removeLabelId id => exact stays_removeLabelId id s
  | createView hierarchical => exact stays_placeView hierarchical none s
  | createViewFrom base => exact stays_createViewFrom base s
  | destroyView view => exact stays_destroyView view s
  | setVisibleView view => exact stays_setVisibleView view s
  | fillView view => exact Stays.bind .get (fun _ => .editView view _) s
  | clearView view => exact Stays.editView view _ s
  | viewAddNode view node => exact stays_viewAddNode view node s
  | viewAddNodes view nodes => exact stays_viewAddNodes view nodes s
  | viewAddEdge view edge => exact stays_viewAddEdge view edge s
  | viewRemoveNode view node => exact stays_viewRemoveNode view node s
  | viewRemoveEdge view edge => exact stays_viewRemoveEdge view edge s
  | viewUnion view other => exact stays_viewUnion view other s
  | viewIntersection view other => exact stays_viewIntersection view other s
  | viewComplement view => exact Stays.bind .get (fun _ => .editView view _) s
  | setViewInterval view interval => exact Stays.editView view _ s
  | setViewAttribute view name value => exact Stays.editView view _ s
  | removeViewAttribute view name => exact Stays.editView view _ s
  | group view node members => exact stays_group view node members s
  | ungroup view node => exact stays_editGroupAt view node _ s
  | collapse view node => exact stays_editGroupAt view node _ s
  | expand view node => exact stays_editGroupAt view node _ s
  | createObserver view keepsDiff => exact stays_createObserver view keepsDiff s
  | poll observer => exact stays_poll observer s
  | detachObserver observer => exact aside_detachObserver observer s
  | setDefaults provider => exact .of_unheard ⟨rfl, rfl, rfl, rfl, rfl⟩ rfl rfl

end Session

end PropertyGraph

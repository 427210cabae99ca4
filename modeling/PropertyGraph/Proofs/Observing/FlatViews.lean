import PropertyGraph.Proofs.Observing.Counting

/-!
# Counting the members of flat views

A call on views counts nothing without cause: the counters of the whole store stay where they are,
and so do those of a flat view that keeps its members. Together with what is counted, this says that
the version of a flat view tells exactly whether one call has changed what it shows, and the version
of the store whether one call has changed what is stored.
-/

namespace PropertyGraph

/-- Where the record of a flat view keeps its members, it keeps its version. -/
def ViewRecord.KeepsVersion (r r' : ViewRecord) : Prop :=
  r.groups = none → r'.nodes = r.nodes → r'.edges = r.edges → r'.version = r.version

theorem ViewRecord.KeepsVersion.of_version {r r' : ViewRecord} (h : r'.version = r.version) :
    r.KeepsVersion r' := fun _ _ _ => h

theorem ViewRecord.KeepsVersion.setMembers (r : ViewRecord) (nodes edges : IdSet) :
    r.KeepsVersion (r.setMembers nodes edges) := by
  intro _ hnodes hedges
  change nodes = r.nodes at hnodes
  change edges = r.edges at hedges
  subst hnodes hedges
  exact Version.bumpIf_eq_iff.mpr ⟨decide_eq_false (not_not_intro rfl),
    decide_eq_false (not_not_intro rfl)⟩

theorem ViewRecord.KeepsVersion.addEdge (r : ViewRecord) (slot source target : Nat) :
    r.KeepsVersion (r.addEdge slot source target).2 := by
  unfold ViewRecord.addEdge
  split
  · exact .setMembers r _ _
  · exact .of_version rfl

theorem ViewRecord.KeepsVersion.removeNode (r : ViewRecord) (slot : Nat) (incident : List Nat) :
    r.KeepsVersion (r.removeNode slot incident).2 := by
  unfold ViewRecord.removeNode
  split
  · exact .setMembers r _ _
  · exact .of_version rfl

/-- Between two stores nothing was counted without cause. -/
structure Store.KeepsVersion (t t' : Store) : Prop where
  version_eq : t'.version = t.version
  record : ∀ slot r r', t.views.arena.get? slot = some r → t'.views.arena.get? slot = some r' →
    r.KeepsVersion r'

theorem Store.KeepsVersion.of_views {t t' : Store} (hversion : t'.version = t.version)
    (hviews : t'.views.arena = t.views.arena) : t.KeepsVersion t' where
  version_eq := hversion
  record := by
    intro slot r r' hr hr'
    rw [hviews, hr, Option.some.injEq] at hr'
    exact .of_version (by rw [hr'])

theorem Store.KeepsVersion.refl (t : Store) : t.KeepsVersion t := .of_views rfl rfl

namespace Session

open PropertyGraph.Action

variable {α : Type} {s s' s'' : Session} {order order' : List Nat} {view : View} {r r' : ViewRecord}

/-! ### Calls on views -/

theorem keepsVersion_setRecord (hr : s.store.views.arena.get? view.slot = some r)
    (hversioned : r.KeepsVersion r') : s.store.KeepsVersion (s.setRecord view r').store where
  version_eq := rfl
  record := by
    intro slot x y hx hy
    rw [get?_setRecord hr] at hy
    split at hy
    · next heq =>
      rw [heq, hr, Option.some.injEq] at hx
      cases hy
      rwa [← hx]
    · rw [hx, Option.some.injEq] at hy
      exact .of_version (by rw [hy])

theorem keepsVersion_editView {edit : ViewRecord → Except Fault (α × ViewRecord)}
    (hedit : ∀ (r : ViewRecord) answer r', edit r = .ok (answer, r') → r.KeepsVersion r') :
    (editView view edit).Leads s (s.store.KeepsVersion ·.store) := by
  rcases editView_cases view edit s with ⟨fault, h⟩ | ⟨r, answer, r', hrecord, hdone, h⟩
  · rw [Leads, h]
    exact .refl _
  · rw [Leads, h]
    exact keepsVersion_setRecord (get?_of_viewRecord hrecord) (hedit r answer r' hdone)

theorem keepsVersion_editView_ok {f : ViewRecord → α × ViewRecord}
    (hf : ∀ r : ViewRecord, r.KeepsVersion (f r).2) :
    (editView view fun r => .ok (f r)).Leads s (s.store.KeepsVersion ·.store) := by
  refine keepsVersion_editView fun r answer r' hdone => ?_
  have hone := hf r
  rw [Except.ok.injEq] at hdone
  rwa [hdone] at hone

theorem keepsVersion_changeView {f : ViewRecord → ViewRecord}
    (hf : ∀ r : ViewRecord, r.KeepsVersion (f r)) :
    (changeView view f).Leads s (s.store.KeepsVersion ·.store) :=
  keepsVersion_editView_ok hf

theorem keepsVersion_editGroups (edit : GroupForest Nat → Except Fault (α × Bool × GroupForest Nat)) :
    (editGroups view edit).Leads s (s.store.KeepsVersion ·.store) := by
  refine keepsVersion_editView fun r answer r' hdone hflat => ?_
  -- A flat view has no groups to edit, so the edit was refused.
  rw [groupsOf, hflat] at hdone
  cases hdone

theorem keepsVersion_editGroupAt (node : Node) (edit : GroupForest Nat → Nat → Bool × GroupForest Nat) :
    (editGroupAt view node edit).Leads s (s.store.KeepsVersion ·.store) :=
  .ask_bind (.refl _) fun _ _ => keepsVersion_editGroups _

theorem keepsVersion_viewAddEdge (edge : Edge) :
    (viewAddEdge view edge).Leads s (s.store.KeepsVersion ·.store) := by
  rw [viewAddEdge]
  exact .ask_bind (.refl _) fun x _ => keepsVersion_editView_ok fun r => .addEdge r _ _ _

theorem keepsVersion_viewRemoveNode (node : Node) :
    (viewRemoveNode view node).Leads s (s.store.KeepsVersion ·.store) := by
  rw [viewRemoveNode]
  exact .ask_bind (.refl _) fun slot _ => .get_bind (keepsVersion_editView_ok fun r => .removeNode r _ _)

/-- No change of edges was counted, nor any of the whole store. -/
structure EdgesUncounted (s s' : Session) : Prop where
  store : s'.store.version = s.store.version
  view : ∀ slot, (s'.store.views.arena.get? slot).map (·.version.edge) =
    (s.store.views.arena.get? slot).map (·.version.edge)

theorem EdgesUncounted.refl (s : Session) : EdgesUncounted s s := ⟨rfl, fun _ => rfl⟩

theorem EdgesUncounted.trans (h : EdgesUncounted s s') (h' : EdgesUncounted s' s'') :
    EdgesUncounted s s'' :=
  ⟨h'.store.trans h.store, fun slot => (h'.view slot).trans (h.view slot)⟩

theorem edgesUncounted_viewAddNode (view : View) (node : Node) (s : Session) :
    EdgesUncounted s (viewAddNode view node s).2 := by
  rw [viewAddNode, bind_apply, ask_apply]
  cases s.resolveNode node with
  | error fault => exact .refl s
  | ok n =>
    simp only
    rcases editView_cases view (fun r => .ok (r.addNode n)) s with
      ⟨fault, h⟩ | ⟨r, answer, r', hrecord, hdone, h⟩
    · rw [h]
      exact .refl s
    · rw [h]
      have hr := get?_of_viewRecord hrecord
      refine ⟨rfl, fun slot => ?_⟩
      rw [get?_setRecord hr]
      split
      · next heq =>
        cases hdone
        rw [heq, hr, Option.map_some, Option.map_some, Option.some.injEq]
        change (r.version.bumpIf _ (decide (r.edges ≠ r.edges))).edge = _
        rw [Version.edge_bumpIf]
        simp
      · rfl

theorem edgesUncounted_viewAddNodes (view : View) (nodes : List Node) (s : Session) :
    EdgesUncounted s (viewAddNodes view nodes s).2 := by
  induction nodes generalizing s with
  | nil => exact .refl s
  | cons node rest ih =>
    rw [viewAddNodes]
    have hfirst := edgesUncounted_viewAddNode view node s
    refine bind_snd (P := EdgesUncounted s) hfirst fun added s' h => ?_
    rw [h] at hfirst
    exact Leads.map_answer (a := viewAddNodes view rest) (P := EdgesUncounted s)
      (hfirst.trans (ih s')) _

theorem keepsVersion_viewAddNodes (hs : s.Consistent order) (nodes : List Node) :
    s.store.KeepsVersion (viewAddNodes view nodes s).2.store where
  version_eq := (edgesUncounted_viewAddNodes view nodes s).store
  record := by
    intro slot r r' hr hr' _ hnodes _
    have hedge := (edgesUncounted_viewAddNodes view nodes s).view slot
    rw [hr, hr', Option.map_some, Option.map_some, Option.some.injEq] at hedge
    obtain ⟨x, hx, hgrown⟩ := (grows_viewAddNodes hs view nodes).record_of slot r' hr'
    rw [hr, Option.some.injEq] at hx
    subst hx
    -- Each node counts for itself, but as they only came, none came if the nodes are the same.
    have hcounts := hgrown.nodes
    rw [hnodes] at hcounts
    exact Version.eq_iff.mpr ⟨hcounts.counter_eq, hedge⟩

theorem keepsVersion_placeView (hs : s.Consistent order) (hierarchical : Bool)
    (base : Option ViewRecord) : s.store.KeepsVersion (placeView hierarchical base s).2.store := by
  rcases placeView_run hs hierarchical base with ⟨_, h⟩ | ⟨slot, arena, hfree, _, hget, h⟩
  · rw [h]
    exact .refl _
  · rw [h]
    refine ⟨rfl, fun i r r' hr hr' => ?_⟩
    change arena.get? i = some r' at hr'
    rw [hget] at hr'
    split at hr'
    · next heq =>
      rw [heq, hfree] at hr
      cases hr
    · rw [hr, Option.some.injEq] at hr'
      exact .of_version (by rw [hr'])

theorem keepsVersion_destroyView (hs : s.Consistent order) (view : View) :
    s.store.KeepsVersion (destroyView view s).2.store := by
  rw [destroyView]
  refine Leads.ask_bind (P := (s.store.KeepsVersion ·.store)) (.refl _) fun record _ => ?_
  rw [Leads]
  simp only [bind_apply, change_apply]
  refine ⟨rfl, fun i r r' hr hr' => ?_⟩
  change (s.store.views.arena.free view.slot).2.get? i = some r' at hr'
  rw [hs.views_valid.get?_free] at hr'
  split at hr'
  · cases hr'
  · rw [hr, Option.some.injEq] at hr'
    exact .of_version (by rw [hr'])

theorem keepsVersion_setVisibleView (view : Option View) (s : Session) :
    s.store.KeepsVersion (setVisibleView view s).2.store := by
  rcases setVisibleView_cases view s with ⟨_, _, _, _, h⟩ | ⟨_, h⟩
  · rw [h]
    exact .refl _
  · rw [h]
    exact .of_views rfl rfl

/-! ### Who watches -/

theorem keepsVersion_attachObserver (observer : Observer) (s : Session) :
    (attachObserver observer).Leads s (s.store.KeepsVersion ·.store) := by
  rw [attachObserver]
  cases observer.view with
  | none => exact .of_views rfl rfl
  | some view => exact keepsVersion_changeView fun r => .of_version rfl

theorem keepsVersion_createObserver (view : Option View) (keepsDiff : Bool) (s : Session) :
    (createObserver view keepsDiff).Leads s (s.store.KeepsVersion ·.store) := by
  have hattach : ∀ (observer : Observer) (f : Watch → Watch), Leads (do
      change (·.withCatalog fun catalog =>
        { catalog with fresh := catalog.fresh + 1 }.modifyWatch observer f)
      attachObserver observer
      return observer) s (s.store.KeepsVersion ·.store) := fun observer f =>
    .change_bind (.map_answer (keepsVersion_attachObserver observer _) _)
  rw [createObserver]
  refine .ask_bind (.refl _) fun version _ => ?_
  cases keepsDiff with
  | false => exact .get_bind (hattach _ _)
  | true => exact .ask_bind (.refl _) fun snapshot _ => .get_bind (hattach _ _)

theorem store_poll (observer : Observer) (s : Session) : (poll observer s).2.store = s.store := by
  change (poll observer).Leads s (·.store = s.store)
  rw [poll]
  refine .ask_bind rfl fun current _ => .get_bind ?_
  dsimp only
  by_cases hseen : current = (s.catalog.watch observer).last
  · rw [if_pos hseen]
    exact .change_bind rfl
  · rw [if_neg hseen]
    refine .change_bind ?_
    by_cases hkeeps : observer.keepsDiff
    · rw [if_pos hkeeps]
      exact .ask_bind rfl fun now _ => .change_bind rfl
    · rw [if_neg hkeeps]
      rfl

theorem keepsVersion_detachObserver (observer : Observer) (s : Session) :
    s.store.KeepsVersion (s.detachObserver observer).store := by
  rw [detachObserver]
  cases observer.view with
  | none => exact .of_views rfl rfl
  | some view =>
    simp only
    cases hrecord : s.viewRecord view with
    | error fault => exact .refl _
    | ok r =>
      refine ⟨rfl, fun i r r' hr hr' => ?_⟩
      change (s.store.views.arena.modify view.slot _).get? i = some r' at hr'
      rw [Arena.get?_modify, hr] at hr'
      split at hr'
      · cases hr'
        exact .of_version rfl
      · cases hr'
        exact .of_version rfl

/-! ### Any call -/

/-- A call either counts all that comes, or all that goes, or works on views and counts nothing
without cause. -/
theorem counts_perform (hs : s.Consistent order) (command : Command) :
    (Gains s (command.perform s) (s.arrivals (command.perform s) command.offered) ∧
      CountsArrivals s (command.perform s)) ∨
    (Loses s (command.perform s) ∧ CountsDepartures s (command.perform s)) ∨
    (Edits s (command.perform s) ∧ s.store.KeepsVersion (command.perform s).store) := by
  cases command with
  | addNode node => exact .inl ⟨gains_addNode node s, countsArrivals_addNode hs node⟩
  | addEdge edge => exact .inl ⟨gains_addEdge_arrivals hs edge, countsArrivals_addEdge hs edge⟩
  | addNodes nodes => exact .inl ⟨gains_addNodes nodes s, countsArrivals_addNodes hs nodes⟩
  | addEdges edges => exact .inl ⟨gains_addEdges hs edges, countsArrivals_addEdges hs edges⟩
  | addLabel label => exact .inl ⟨gains_addLabel label s, countsArrivals_addLabel label s⟩
  | removeLabel label => exact .inl ⟨gains_removeLabel label s, countsArrivals_removeLabel label s⟩
  | removeLabelId id => exact .inl ⟨gains_removeLabelId id s, countsArrivals_removeLabelId id s⟩
  | removeNode node => exact .inr (.inl ⟨loses_removeNode node s, countsDepartures_removeNode hs node⟩)
  | removeEdge edge => exact .inr (.inl ⟨loses_removeEdge edge s, countsDepartures_removeEdge hs edge⟩)
  | removeNodes nodes =>
    exact .inr (.inl ⟨loses_removeNodes nodes s, countsDepartures_removeNodes hs nodes⟩)
  | retainNodes keep => exact .inr (.inl ⟨loses_retainNodes keep s, countsDepartures_removeNodes hs _⟩)
  | removeEdges edges =>
    exact .inr (.inl ⟨loses_removeEdges edges s, countsDepartures_removeEdges hs edges⟩)
  | retainEdges keep => exact .inr (.inl ⟨loses_retainEdges keep s, countsDepartures_removeEdges hs _⟩)
  | clear => exact .inr (.inl ⟨loses_clear s, countsDepartures_clear hs⟩)
  | clearEdges => exact .inr (.inl ⟨loses_clearEdges s, countsDepartures_clearEdges hs⟩)
  | createView hierarchical =>
    exact .inr (.inr ⟨edits_createView hierarchical s, keepsVersion_placeView hs hierarchical none⟩)
  | createViewFrom base =>
    refine .inr (.inr ⟨edits_createViewFrom base s, ?_⟩)
    exact Leads.ask_bind (P := (s.store.KeepsVersion ·.store)) (.refl _) fun r _ =>
      keepsVersion_placeView hs base.hierarchical (some r)
  | destroyView view => exact .inr (.inr ⟨edits_destroyView view s, keepsVersion_destroyView hs view⟩)
  | setVisibleView view =>
    exact .inr (.inr ⟨edits_setVisibleView view s, keepsVersion_setVisibleView view s⟩)
  | fillView view =>
    refine .inr (.inr ⟨edits_fillView view s, ?_⟩)
    exact Leads.get_bind (P := (s.store.KeepsVersion ·.store))
      (keepsVersion_changeView fun r => .setMembers r _ _)
  | clearView view =>
    exact .inr (.inr ⟨edits_clearView view s, keepsVersion_changeView fun r => .setMembers r _ _⟩)
  | viewAddNode view node =>
    refine .inr (.inr ⟨edits_viewAddNode view node s, ?_⟩)
    exact Leads.ask_bind (P := (s.store.KeepsVersion ·.store)) (.refl _) fun slot _ =>
      keepsVersion_editView_ok fun r => .setMembers r _ _
  | viewAddNodes view nodes =>
    exact .inr (.inr ⟨edits_viewAddNodes view nodes s, keepsVersion_viewAddNodes hs nodes⟩)
  | viewAddEdge view edge =>
    exact .inr (.inr ⟨edits_viewAddEdge view edge s, keepsVersion_viewAddEdge edge⟩)
  | viewRemoveNode view node =>
    exact .inr (.inr ⟨edits_viewRemoveNode view node s, keepsVersion_viewRemoveNode node⟩)
  | viewRemoveEdge view edge =>
    refine .inr (.inr ⟨edits_viewRemoveEdge view edge s, ?_⟩)
    exact Leads.ask_bind (P := (s.store.KeepsVersion ·.store)) (.refl _) fun slot _ =>
      keepsVersion_editView_ok fun r => .setMembers r _ _
  | viewUnion view other =>
    refine .inr (.inr ⟨edits_viewUnion view other s, ?_⟩)
    exact Leads.ask_bind (P := (s.store.KeepsVersion ·.store)) (.refl _) fun other _ =>
      keepsVersion_changeView fun r => .setMembers r _ _
  | viewIntersection view other =>
    refine .inr (.inr ⟨edits_viewIntersection view other s, ?_⟩)
    exact Leads.ask_bind (P := (s.store.KeepsVersion ·.store)) (.refl _) fun other _ =>
      keepsVersion_changeView fun r => .setMembers r _ _
  | viewComplement view =>
    refine .inr (.inr ⟨edits_viewComplement view s, ?_⟩)
    exact Leads.get_bind (P := (s.store.KeepsVersion ·.store))
      (keepsVersion_changeView fun r => .setMembers r _ _)
  | setViewInterval view interval =>
    exact .inr (.inr ⟨edits_setViewInterval view interval s,
      keepsVersion_changeView fun r => .of_version rfl⟩)
  | setViewAttribute view name value =>
    refine .inr (.inr ⟨edits_setViewAttribute view name value s, ?_⟩)
    exact keepsVersion_editView fun r answer r' hdone => by cases hdone; exact .of_version rfl
  | removeViewAttribute view name =>
    refine .inr (.inr ⟨edits_removeViewAttribute view name s, ?_⟩)
    exact keepsVersion_editView fun r answer r' hdone => by cases hdone; exact .of_version rfl
  | group view node members =>
    refine .inr (.inr ⟨edits_group view node members s, ?_⟩)
    exact Leads.ask_bind (P := (s.store.KeepsVersion ·.store)) (.refl _) fun slot _ =>
      .ask_bind (.refl _) fun slots _ => keepsVersion_editGroups _
  | ungroup view node => exact .inr (.inr ⟨edits_ungroup view node s, keepsVersion_editGroupAt node _⟩)
  | collapse view node => exact .inr (.inr ⟨edits_collapse view node s, keepsVersion_editGroupAt node _⟩)
  | expand view node => exact .inr (.inr ⟨edits_expand view node s, keepsVersion_editGroupAt node _⟩)
  | createObserver view keepsDiff =>
    exact .inr (.inr ⟨edits_createObserver view keepsDiff s,
      keepsVersion_createObserver view keepsDiff s⟩)
  | poll observer =>
    refine .inr (.inr ⟨edits_poll observer s, ?_⟩)
    rw [Command.perform, Command.act, store_poll]
    exact .refl _
  | detachObserver observer =>
    exact .inr (.inr ⟨edits_detachObserver observer s, keepsVersion_detachObserver observer s⟩)
  | registerListener listener =>
    exact .inr (.inr ⟨edits_registerListener listener s, .of_views rfl rfl⟩)
  | unregisterListener listener =>
    exact .inr (.inr ⟨edits_unregisterListener listener s, .of_views rfl rfl⟩)
  | setDefaults provider => exact .inr (.inr ⟨edits_setDefaults provider s, .of_views rfl rfl⟩)

/-! ### Counted exactly if changed -/

theorem Gains.anchored {came : List Edge} (h : Gains s s' came) (hs : s.Consistent order) :
    Anchored s s' := by
  obtain ⟨_, hnode, hedge, fresh, hs', _⟩ := h order hs
  exact .of_kept hs' hnode hedge

theorem Loses.anchored (h : Loses s s') (hs : s.Consistent order) : Anchored s s' := by
  obtain ⟨hnode, hedge, _⟩ := h order hs
  exact (Anchored.of_kept hs hnode hedge).symm

theorem Edits.anchored (h : Edits s s') (hs : s.Consistent order) : Anchored s s' := by
  obtain ⟨hnode, hfixed, _, hs'⟩ := h order hs
  exact .of_kept hs' (fun n x hx => (hnode n).trans hx) fun i x hx => (hfixed i).trans hx

theorem Edits.members_none_eq (h : Edits s s') (hs : s.Consistent order) :
    s'.members none = s.members none := by
  obtain ⟨hnode, hfixed, _, _⟩ := h order hs
  have hedge : s'.store.edge? = s.store.edge? := by
    funext i
    rw [Store.edge?_eq, Store.edge?_eq, hfixed]
  rw [members, members, hedge, funext hnode]

theorem version_perform_iff (hs : s.Consistent order) (command : Command) :
    (command.perform s).store.version = s.store.version ↔
      (command.perform s).members none = s.members none := by
  obtain ⟨order', hs'⟩ := exists_consistent_perform hs command
  rcases counts_perform hs command with
    ⟨hgains, harrivals⟩ | ⟨hloses, hdepartures⟩ | ⟨hedits, hversioned⟩
  · exact harrivals.version_eq_iff (hgains.anchored hs) hs hs'
  · exact hdepartures.version_eq_iff (hloses.anchored hs) hs hs'
  · exact iff_of_true hversioned.version_eq (hedits.members_none_eq hs)

theorem viewVersion_perform_iff (hs : s.Consistent order) (command : Command)
    (hr : s.viewRecord view = .ok r) (hr' : (command.perform s).viewRecord view = .ok r')
    (hflat : r.groups = none) (hflat' : r'.groups = none) :
    r'.version = r.version ↔
      (command.perform s).members (some view) = s.members (some view) := by
  obtain ⟨order', hs'⟩ := exists_consistent_perform hs command
  have hget := get?_of_viewRecord hr
  have hget' := get?_of_viewRecord hr'
  have hclosed := hs.closed _ r hget
  rcases counts_perform hs command with ⟨hgains, _⟩ | ⟨hloses, _⟩ | ⟨hedits, hversioned⟩
  · rw [(hgains.anchored hs).members_some_eq_iff hs hs' hr hr' hflat hflat']
    rw [(hgains order hs).views, hget, Option.some.injEq] at hget'
    subst hget'
    exact iff_of_true rfl ⟨rfl, rfl⟩
  · rw [(hloses.anchored hs).members_some_eq_iff hs hs' hr hr' hflat hflat', Version.eq_iff]
    obtain ⟨x, hx, hshrunk⟩ := (hloses order hs).record_of _ r' hget'
    rw [hget, Option.some.injEq] at hx
    subst hx
    rw [hshrunk.nodes.eq_iff (hclosed.size_nodes_lt hs.sound.nodes_valid),
      hshrunk.edges.eq_iff (hclosed.size_edges_lt hs.sound.edges_valid), eq_comm,
      eq_comm (a := r.edges)]
  · rw [(hedits.anchored hs).members_some_eq_iff hs hs' hr hr' hflat hflat']
    have hedit := (hedits order hs).edit _ r r' hget hget'
    constructor
    · intro hversion
      obtain ⟨hnodes, hedges, _⟩ := hedit.counted hclosed hversion
      exact ⟨hnodes, hedges⟩
    · rintro ⟨hnodes, hedges⟩
      exact hversioned.record _ r r' hget hget' hflat hnodes hedges

def Flat (s : Session) (view : Option View) : Prop :=
  ∀ v r, view = some v → s.viewRecord v = .ok r → r.groups = none

theorem viewRecord_of_versionOf {version : Version} (h : s.versionOf (some view) = .ok version) :
    ∃ r, s.viewRecord view = .ok r ∧ r.version = version := by
  rw [versionOf] at h
  cases hr : s.viewRecord view with
  | error fault =>
    rw [hr] at h
    cases h
  | ok r =>
    rw [hr] at h
    cases h
    exact ⟨r, rfl, rfl⟩

/-- One call changes the version of what it finds flat exactly if it changes the members. -/
theorem versionOf_perform_iff {view : Option View} {version version' : Version}
    (hs : s.Consistent order) (command : Command) (hflat : s.Flat view)
    (hflat' : (command.perform s).Flat view) (hversion : s.versionOf view = .ok version)
    (hversion' : (command.perform s).versionOf view = .ok version') :
    version' = version ↔ (command.perform s).members view = s.members view := by
  cases view with
  | none =>
    cases hversion
    cases hversion'
    exact version_perform_iff hs command
  | some view =>
    obtain ⟨r, hr, rfl⟩ := viewRecord_of_versionOf hversion
    obtain ⟨r', hr', rfl⟩ := viewRecord_of_versionOf hversion'
    exact viewVersion_perform_iff hs command hr hr' (hflat view r rfl hr) (hflat' view r' rfl hr')

end Session

end PropertyGraph

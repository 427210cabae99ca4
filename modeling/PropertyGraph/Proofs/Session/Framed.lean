import PropertyGraph.Proofs.Session.Homes

/-!
# What removals leave alone

A removal, of whatever and however many elements, touches elements and their homes, the members and groups
of views, versions, and what listeners heard. What there is besides, in the catalog, in the store and in
the records of the views, is the setting, and stays.
-/

namespace PropertyGraph

namespace ViewRecord

/-- The record without its members, its groups and its version. A flat view stays flat. -/
def setting (r : ViewRecord) : ViewRecord :=
  { r with nodes := .empty, edges := .empty, groups := r.groups.map (·.clear), version := {} }

theorem setting_forgetNode {r : ViewRecord} {slot : Nat} :
    (r.forgetNode slot).setting = r.setting := by
  obtain ⟨view, nodes, edges, groups, interval, attributes, version, observers⟩ := r
  cases groups <;> rfl

theorem setting_forgetAll {r : ViewRecord} : r.forgetAll.setting = r.setting := by
  obtain ⟨view, nodes, edges, groups, interval, attributes, version, observers⟩ := r
  cases groups <;> rfl

end ViewRecord

namespace Session

open PropertyGraph.Action

variable {s s' s'' : Session} {order : List Nat}

/-- The session without elements and their homes, views, versions, and what was heard. -/
def setting (s : Session) : Session where
  catalog := { s.catalog with nodeHomes := ∅, edgeHomes := ∅, events := ∅ }
  store := { s.store with
    nodes := { arena := .linear }
    edges := { kind := s.store.edges.kind, arena := .linear }
    views := { visible := s.store.views.visible }
    version := {} }

/-! ### The setting stays -/

/-- Nothing has changed but elements, members and groups of views, versions, and what was heard. -/
structure Framed (s s' : Session) : Prop where
  setting_eq : s'.setting = s.setting
  record_eq : ∀ v, (s'.store.views.arena.get? v).map ViewRecord.setting =
    (s.store.views.arena.get? v).map ViewRecord.setting

namespace Framed

theorem refl (s : Session) : Framed s s := ⟨rfl, fun _ => rfl⟩

theorem trans (h : Framed s s') (h' : Framed s' s'') : Framed s s'' :=
  ⟨h'.setting_eq.trans h.setting_eq, fun v => (h'.record_eq v).trans (h.record_eq v)⟩

theorem told (h : Framed s s') (nodes edges : Bool) (event : Event) :
    Framed s ((s'.bumpIf nodes edges).tell event) := by
  refine h.trans ⟨?_, fun _ => rfl⟩
  change setting ⟨s'.store.listeners.foldl (Catalog.tell event) s'.catalog,
    (s'.bumpIf nodes edges).store⟩ = _
  rw [foldl_tell_eq]
  rfl

theorem mapViews {f : ViewRecord → ViewRecord} (hsetting : s'.setting = s.setting)
    (hviews : s'.store.views = s.store.views.map f) (hf : ∀ r, (f r).setting = r.setting) :
    Framed s s' where
  setting_eq := hsetting
  record_eq := by
    intro v
    rw [hviews, ViewTable.map, Arena.get?_map, Option.map_map]
    exact congrArg (Option.map · _) (funext hf)

end Framed

theorem framed_removeEdge (edge : Edge) (s : Session) : Framed s (removeEdge edge s).2 := by
  refine removeEdge_induction (.refl s) fun slot e place _ _ => ?_
  refine .told (.mapViews (f := (·.forgetEdge slot)) ?_ ?_ fun r => rfl) _ _ _
  · have hkind : (s.store.unlink slot e).edges.kind = s.store.edges.kind := Store.ids_unlink.2.2
    unfold setting forgetEdge withStore withCatalog
    simp only [hkind]
    rw [Store.unlink_eq]
    rfl
  · change (s.store.unlink slot e).views.map _ = _
    rw [Store.views_unlink]

theorem framed_removeEach (edges : List Edge) (s : Session) : Framed s (removeEach edges s).2 :=
  removeEach_induction .refl .trans framed_removeEdge edges s

theorem framed_removeNode (hs : s.Consistent order) (node : Node) :
    Framed s (removeNode node s).2 := by
  refine hs.removeNode_induction (.refl s) (fun slot => framed_removeEach _ s)
    fun slot s' order' place hdone _ _ _ => ?_
  have hforget : Framed s' (s'.forgetNode slot node) :=
    .mapViews (f := (·.forgetNode slot)) rfl rfl fun _ => ViewRecord.setting_forgetNode
  exact hdone.trans (hforget.told _ _ _)

theorem setting_dropAllEdges (s : Session) : s.dropAllEdges.setting = s.setting := by
  unfold setting dropAllEdges withStore withCatalog
  simp only [foldl_unbindEdge_eq]
  rfl

theorem setting_dropAllNodes (s : Session) : s.dropAllNodes.setting = s.setting := by
  unfold setting dropAllNodes withStore withCatalog
  simp only [foldl_unbindNode_eq]

theorem framed_clearEdges (s : Session) : Framed s (clearEdges s).2 := by
  rw [clearEdges, change_apply]
  refine .told ?_ _ _ _
  exact .mapViews (f := (·.clearEdges)) (setting_dropAllEdges s) rfl fun _ => rfl

theorem framed_clear (s : Session) : Framed s (clear s).2 := by
  rw [clear, change_apply]
  have hsetting := (setting_dropAllNodes s.dropAllEdges).trans (setting_dropAllEdges s)
  refine .told ?_ _ _ _
  exact .mapViews (f := (·.forgetAll)) hsetting rfl fun _ => ViewRecord.setting_forgetAll

end Session

end PropertyGraph

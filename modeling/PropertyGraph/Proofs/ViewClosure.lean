import PropertyGraph.Proofs.Session.Accepted
import PropertyGraph.Proofs.Session.History

/-!
# What views name

A view names nodes and edges by their slots, and a slot that is freed is handed out again. So a view
must never name a free slot, or it would have a member that nobody made one as soon as something new
is stored there. The invariant of sessions says that no view does; read for the state before a call
it says that what the call stores is in no view afterwards.
-/

namespace PropertyGraph

/-- Whether the node is anywhere in the forest. -/
def GroupForest.Mentions (f : GroupForest Nat) (n : Nat) : Prop :=
  (∃ parent, f.parent? n = some parent) ∨ (∃ child, f.parent? child = some n) ∨
    (∃ group, n ∈ f.children group) ∨ f.isGroup n = true ∨ f.isCollapsed n = true

theorem GroupForest.Valid.parent_of_mentions {f : GroupForest Nat} {n : Nat} (hf : f.Valid)
    (h : f.Mentions n) : ∃ child parent, f.parent? child = some parent ∧ (n = child ∨ n = parent) := by
  have hgroup : f.isGroup n = true → ∃ child, f.parent? child = some n := by
    intro hgroup
    obtain ⟨child, hchild⟩ := List.exists_mem_of_ne_nil _ ((hf.isGroup_iff n).mp hgroup)
    exact ⟨child, (hf.mem_children_iff n child).mp hchild⟩
  have habove : (∃ child, f.parent? child = some n) →
      ∃ child parent, f.parent? child = some parent ∧ (n = child ∨ n = parent) := by
    rintro ⟨child, hchild⟩
    exact ⟨child, n, hchild, .inr rfl⟩
  rcases h with ⟨parent, hparent⟩ | hchild | ⟨group, hmem⟩ | hisGroup | hcollapsed
  · exact ⟨n, parent, hparent, .inl rfl⟩
  · exact habove hchild
  · exact ⟨n, group, (hf.mem_children_iff group n).mp hmem, .inl rfl⟩
  · exact habove (hgroup hisGroup)
  · exact habove (hgroup (hf.isGroup_of_collapsed n hcollapsed))

namespace ViewRecord

def NamesNode (r : ViewRecord) (n : Nat) : Prop :=
  r.nodes.contains n = true ∨ ∃ f, r.groups = some f ∧ f.Mentions n

/-- The view names only what is stored, and with an edge it has its ends: an edge that is a member
has members for ends, and an edge that is shown has ends that are shown. -/
structure Faithful (s : Session) (r : ViewRecord) : Prop where
  node_stored : ∀ n, r.NamesNode n → ∃ node, s.store.node? n = some node
  edge_stored : ∀ i, r.edges.contains i = true → ∃ e, s.store.edges.get? i = some e ∧
    r.nodes.contains e.source = true ∧ r.nodes.contains e.target = true
  ends_shown : ∀ i e, s.store.edges.get? i = some e → s.recordShowsEdge r i = true →
    r.showsNode e.source = true ∧ r.showsNode e.target = true

variable {s : Session} {r : ViewRecord}

theorem Closed.node_stored (h : r.Closed s.store) {n : Nat} (hn : r.NamesNode n) :
    ∃ node, s.store.node? n = some node := by
  rw [← Option.isSome_iff_exists]
  rcases hn with hmember | ⟨f, hf, hmentions⟩
  · exact h.node_live n hmember
  · obtain ⟨child, parent, hparent, rfl | rfl⟩ := (h.forest_valid f hf).parent_of_mentions hmentions
    · exact (h.group_live f hf _ _ hparent).1
    · exact (h.group_live f hf _ _ hparent).2

theorem Closed.faithful (h : r.Closed s.store) : r.Faithful s where
  node_stored := fun _ hn => h.node_stored hn
  edge_stored := by
    intro i hi
    obtain ⟨x, hx, hends⟩ := h.edge_live i hi
    obtain ⟨e, he, rfl⟩ := Option.map_eq_some_iff.mp hx
    exact ⟨e, he, hends .outgoing, hends .incoming⟩
  ends_shown := by
    intro i e he hshown
    rw [Session.recordShowsEdge, he, Option.any_some, showsEdge, Bool.and_eq_true, Bool.and_eq_true]
      at hshown
    obtain ⟨⟨hmember, hsource⟩, htarget⟩ := hshown
    obtain ⟨x, hx, hends⟩ := h.edge_live i hmember
    rw [Store.fixed?, he, Option.map_some, Option.some.injEq] at hx
    subst hx
    rw [showsNode, showsNode, hsource, htarget]
    exact ⟨(Bool.and_true _).trans (hends .outgoing), (Bool.and_true _).trans (hends .incoming)⟩

end ViewRecord

namespace Session

open PropertyGraph.Action

variable {s s' : Session} {edges : List Edge} {order : List Nat}

/-- Every view names only what is stored. -/
def Faithful (s : Session) : Prop :=
  ∀ slot r, s.store.views.arena.get? slot = some r → r.Faithful s

/-- What was not stored in its slot before is named by no view afterwards. -/
structure NewcomersUnnamed (s s' : Session) : Prop where
  node : ∀ slot r, s'.store.views.arena.get? slot = some r → ∀ n node,
    s.store.node? n ≠ some node → s'.store.node? n = some node → ¬ r.NamesNode n
  edge : ∀ slot r, s'.store.views.arena.get? slot = some r → ∀ i edge,
    s.store.edge? i ≠ some edge → s'.store.edge? i = some edge → r.edges.contains i = false

theorem Gains.newcomersUnnamed {came : List Edge} (h : Gains s s' came) (hs : s.Consistent order) :
    s.NewcomersUnnamed s' := by
  obtain ⟨hviews, hnode, hedge, _⟩ := h order hs
  refine ⟨fun slot r hr n node hold hnew hnames => ?_, fun slot r hr i edge hold hnew => ?_⟩
  · rw [hviews] at hr
    obtain ⟨other, hother⟩ := (hs.closed slot r hr).node_stored hnames
    rw [hnode n other hother] at hnew
    exact hold (hother.trans hnew)
  · rw [hviews] at hr
    by_contra hmember
    obtain ⟨x, hx, _⟩ := (hs.closed slot r hr).edge_live i (Bool.eq_true_of_not_eq_false hmember)
    rw [Store.edge?_eq, hedge i x hx] at hnew
    rw [Store.edge?_eq, hx] at hold
    exact hold hnew

theorem newcomersUnnamed_of_forall
    (hnode : ∀ n node, s'.store.node? n = some node → s.store.node? n = some node)
    (hedge : ∀ i x, s'.store.fixed? i = some x → s.store.fixed? i = some x) :
    s.NewcomersUnnamed s' := by
  refine ⟨fun slot r hr n node hold hnew _ => hold (hnode n node hnew),
    fun slot r hr i edge hold hnew => ?_⟩
  rw [Store.edge?_eq, Option.map_eq_some_iff] at hnew
  obtain ⟨x, hx, rfl⟩ := hnew
  rw [Store.edge?_eq, hedge i x hx] at hold
  exact absurd rfl hold

theorem History.views_faithful (h : History s edges) :
    s.Faithful ∧ ∀ command : Command, s.NewcomersUnnamed (command.perform s) := by
  obtain ⟨order, hs, _⟩ := h.recorded
  refine ⟨fun slot r hr => (hs.closed slot r hr).faithful, fun command => ?_⟩
  rcases perform_cases hs command with hgains | hloses | hedits
  · exact hgains.newcomersUnnamed hs
  · obtain ⟨hnode, hedge, _⟩ := hloses order hs
    exact newcomersUnnamed_of_forall hnode hedge
  · obtain ⟨hnode, hfixed, _⟩ := hedits order hs
    exact newcomersUnnamed_of_forall (fun n node hn => (hnode n).symm.trans hn)
      fun i x hx => (hfixed i).symm.trans hx

/-! ### A node under a collapsed one

Two nodes and a hierarchical view of the second one, which is in a group of the first. The group is
collapsed, so the view shows nothing. -/

def nodeA : Node := { serial := 0, id := .int 1 }

def nodeB : Node := { serial := 1, id := .int 2 }

def exampleView : View := { serial := 0, store := 0, slot := 0, hierarchical := true }

def withA : Session where
  catalog := { nodeHomes := (∅ : Std.HashMap Node Home).insert nodeA ⟨0, 0⟩ }
  store :=
    { Store.empty 0 {} with
      nodes :=
        { arena :=
            { growth := .blocks 1024
              blocks := #[{ slots := #[some { node := nodeA }], live := 1 }]
              length := 1
              size := 1 }
          ids := (∅ : Std.HashMap ElementId Nat).insert (.int 1) 0 }
      version := { node := 1 } }

def withAB : Session where
  catalog := { nodeHomes := ((∅ : Std.HashMap Node Home).insert nodeA ⟨0, 0⟩).insert nodeB ⟨0, 1⟩ }
  store :=
    { Store.empty 0 {} with
      nodes :=
        { arena :=
            { growth := .blocks 1024
              blocks := #[{ slots := #[some { node := nodeA }, some { node := nodeB }], live := 2 }]
              length := 2
              size := 2 }
          ids := ((∅ : Std.HashMap ElementId Nat).insert (.int 1) 0).insert (.int 2) 1 }
      version := { node := 2 } }

def withView (r : ViewRecord) : Session where
  catalog := { withAB.catalog with fresh := 1 }
  store :=
    { withAB.store with
      views :=
        { arena :=
            { growth := .linear
              blocks := #[{ slots := #[some r], live := 1 }]
              length := 1
              size := 1 } } }

def groupAB : GroupForest Nat where
  parents := (∅ : Std.HashMap Nat Nat).insert 1 0
  members := (∅ : Std.HashMap Nat (List Nat)).insert 0 [1]

def collapsedAB : GroupForest Nat := { groupAB with collapsed := (∅ : Std.HashSet Nat).insert 0 }

def memberRecord : ViewRecord :=
  { view := exampleView, nodes := ⟨2⟩, groups := some {}, version := { node := 1 } }

def groupedRecord : ViewRecord :=
  { view := exampleView, nodes := ⟨2⟩, groups := some groupAB, version := { node := 2, edge := 1 } }

def collapsedRecord : ViewRecord :=
  { view := exampleView, nodes := ⟨2⟩, groups := some collapsedAB, version := { node := 3, edge := 2 } }

theorem perform_addNode_nodeA : (Command.addNode nodeA).perform opened = withA := by
  have hhome : opened.nodeSlot? nodeA = .ok none := by
    rw [nodeSlot?]
    simp [opened]
  have hfree : opened.store.nodes.ids.contains nodeA.id = false := Std.HashMap.contains_empty
  rw [Command.perform, Command.act, addNode_of_fresh rfl hhome hfree rfl]
  rfl

theorem perform_addNode_nodeB : (Command.addNode nodeB).perform withA = withAB := by
  have hhome : withA.nodeSlot? nodeB = .ok none := by
    rw [nodeSlot?]
    simp [withA, nodeA, nodeB]
  have hfree : withA.store.nodes.ids.contains nodeB.id = false := by simp [withA, nodeB]
  rw [Command.perform, Command.act, addNode_of_fresh rfl hhome hfree rfl]
  rfl

theorem history_withAB : History withAB [] := by
  have hcollapsed : History withA [] := by
    rw [← perform_addNode_nodeA]
    exact .performed opened [] (.addNode nodeA) (.opened 0 {} _ {} rfl)
  rw [← perform_addNode_nodeB]
  exact .performed withA [] (.addNode nodeB) hcollapsed

theorem resolveNode_withView (r : ViewRecord) :
    (withView r).resolveNode nodeA = .ok 0 ∧ (withView r).resolveNode nodeB = .ok 1 := by
  have hnodeA : (withView r).catalog.nodeHomes[nodeA]? = some ⟨0, 0⟩ := by
    have hne : ¬ (nodeB == nodeA) = true := by decide
    change (((∅ : Std.HashMap Node Home).insert nodeA ⟨0, 0⟩).insert nodeB ⟨0, 1⟩)[nodeA]? = _
    rw [Std.HashMap.getElem?_insert, if_neg hne, Std.HashMap.getElem?_insert_self]
  have hcargo : (withView r).catalog.nodeHomes[nodeB]? = some ⟨0, 1⟩ :=
    Std.HashMap.getElem?_insert_self
  rw [resolveNode, resolveNode, nodeSlot?, nodeSlot?, hnodeA, hcargo]
  exact ⟨rfl, rfl⟩

theorem viewRecord_withView (r : ViewRecord) : (withView r).viewRecord exampleView = .ok r :=
  viewRecord_of_live rfl Std.HashSet.contains_empty rfl

theorem group_groupAB : ({} : GroupForest Nat).group 0 [1] = .ok groupAB := by
  simp [GroupForest.group, GroupForest.ancestors, GroupForest.climb, GroupForest.move,
    GroupForest.detach, GroupForest.attach, GroupForest.parent?, GroupForest.children, groupAB]

theorem collapse_groupAB : groupAB.collapse 0 = (true, collapsedAB) := by
  simp [GroupForest.collapse, GroupForest.isGroup, GroupForest.isCollapsed, groupAB, collapsedAB]

theorem isHidden_collapsedAB : collapsedAB.isHidden 0 = false ∧ collapsedAB.isHidden 1 = true := by
  have hsize : collapsedAB.parents.size = 1 := by
    simp [collapsedAB, groupAB, Std.HashMap.size_insert]
  rw [GroupForest.isHidden, GroupForest.isHidden, GroupForest.ancestors, GroupForest.ancestors, hsize]
  simp [GroupForest.climb, GroupForest.parent?, GroupForest.isCollapsed, collapsedAB, groupAB]

def withNodes : Session := withView { view := exampleView, groups := some {} }

theorem history_withNodes : History withNodes [] :=
  .performed withAB [] (.createView true) history_withAB

theorem history_collapsedRecord : History (withView collapsedRecord) [] := by
  have hview : History (withView { view := exampleView, groups := some {} }) [] := history_withNodes
  have hmember : History (withView memberRecord) [] := by
    have h := History.performed _ _ (.viewAddNode exampleView nodeB) hview
    rw [Command.perform, Command.act,
      viewAddNode_of_live (resolveNode_withView _).2 (viewRecord_withView _)] at h
    exact h
  have hgroup : History (withView groupedRecord) [] := by
    have hmembers : (withView memberRecord).resolveNodes [nodeB] = .ok [1] := by
      rw [resolveNodes, List.mapM_cons, (resolveNode_withView _).2]
      rfl
    have h := History.performed _ _ (.group exampleView nodeA [nodeB]) hmember
    rw [Command.perform, Command.act,
      group_of_live (resolveNode_withView _).1 hmembers (viewRecord_withView _) rfl
      group_groupAB] at h
    exact h
  have h := History.performed _ _ (.collapse exampleView nodeA) hgroup
  rw [Command.perform, Command.act, collapse,
    editGroupAt_of_live (resolveNode_withView _).1 (viewRecord_withView _)
    rfl collapse_groupAB] at h
  exact h

theorem views_faithful_collapsedRecord :
    (withView collapsedRecord).Faithful ∧ (withView collapsedRecord).NewcomersUnnamed
      ((Command.addNode { serial := 2, id := .int 3 }).perform (withView collapsedRecord)) :=
  ⟨history_collapsedRecord.views_faithful.1, history_collapsedRecord.views_faithful.2 _⟩

end Session

end PropertyGraph

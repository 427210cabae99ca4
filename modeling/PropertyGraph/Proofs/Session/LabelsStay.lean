import PropertyGraph.Proofs.Session.Homes

/-!
# Labels stay

Storing an edge registers its label if that is new. Nothing that is done to nodes and edges takes a
label out again, so a label that is registered keeps its id until it is removed by name or by id.
-/

namespace PropertyGraph

open PropertyGraph.Action

def Command.isElemental : Command → Bool
  | .addNode _ | .removeNode _ | .addEdge _ | .removeEdge _ | .addNodes _ | .removeNodes _
  | .retainNodes _ | .addEdges _ | .removeEdges _ | .retainEdges _ | .clear | .clearEdges => true
  | _ => false

/-- Every label of the one registry has the id in the other one that it has there. -/
def LabelRegistry.StaysIn (r r' : LabelRegistry) : Prop :=
  ∀ id label, r.labels.get? id = some label → r'.labels.get? id = some label

namespace LabelRegistry.StaysIn

variable {r r' r'' : LabelRegistry}

theorem refl (r : LabelRegistry) : r.StaysIn r := fun _ _ hid => hid

theorem trans (h : r.StaysIn r') (h' : r'.StaysIn r'') : r.StaysIn r'' :=
  fun id label hid => h' id label (h id label hid)

theorem of_eq (h : r' = r) : r.StaysIn r' := fun _ _ hid => by rwa [h]

theorem add (h : r.Sound) (label : String) : r.StaysIn (r.add label).2 := by
  rcases h.add_cases label with
    ⟨fault, hadd⟩ | ⟨_, hadd, _⟩ | ⟨fresh, _, hadd, _, _, hfree, hget⟩
  · rw [hadd]
    exact .refl r
  · rw [hadd]
    exact .refl r
  · rw [hadd]
    intro id other hid
    rw [hget, if_neg, hid]
    rintro rfl
    rw [hfree] at hid
    cases hid

end LabelRegistry.StaysIn

namespace Session

variable {s s' s'' : Session} {order : List Nat} {edge : Edge} {source target : Nat}

/-- From a consistent session to another one, in which every label has the id that it had. -/
def KeepsLabels (s s' : Session) : Prop := ∀ order, s.Consistent order →
  (∃ order', s'.Consistent order') ∧ s.store.labels.StaysIn s'.store.labels

namespace KeepsLabels

theorem refl (s : Session) : KeepsLabels s s := fun order hs => ⟨⟨order, hs⟩, .refl _⟩

theorem trans (h : KeepsLabels s s') (h' : KeepsLabels s' s'') : KeepsLabels s s'' := by
  intro order hs
  obtain ⟨⟨order', hs'⟩, hstays⟩ := h order hs
  obtain ⟨hs'', hstays'⟩ := h' order' hs'
  exact ⟨hs'', hstays.trans hstays'⟩

theorem of_eq (hkeeps : Keeps s s')
    (h : ∀ order, s.Consistent order → s'.store.labels = s.store.labels) : KeepsLabels s s' :=
  fun order hs => ⟨(hkeeps order hs).2, .of_eq (h order hs)⟩

end KeepsLabels

theorem keepsLabels_addNode (node : Node) (s : Session) : KeepsLabels s (addNode node s).2 := by
  refine .of_eq (keeps_addNode node s) fun order hs => ?_
  rcases addNode_cases hs node with ⟨answer, h⟩ | ⟨slot, nodes, place, _, _, _, _, _, _, h⟩
  · rw [h]
  · rw [h]
    rfl

theorem labels_placeEdge (edge : Edge) (source target : Nat) (s : Session) :
    (placeEdge edge source target s).2.store.labels = (s.store.labels.add edge.label).2 := by
  rw [placeEdge]
  simp only [bind_apply, onStore_apply, change_apply, pure_apply]
  rcases s.store.labels.add edge.label with ⟨fault | id, labels⟩
  · rfl
  · simp only
    rcases s.store.edges.add { edge, ends := ⟨source, target⟩, label := id } with
      ⟨fault | slot, edges⟩
    · rfl
    · simp only [tell, bumpIf, withStore, withCatalog]
      rw [Store.link_eq]

theorem keepsLabels_addEdge (edge : Edge) (s : Session) : KeepsLabels s (addEdge edge s).2 := by
  intro order hs
  refine ⟨(keeps_addEdge edge s order hs).2, ?_⟩
  rcases addEdge_cases edge s with ⟨fault, h⟩ | ⟨h, _⟩ | ⟨source, target, _, _, _, _, h⟩
  · rw [h]
    exact .refl _
  · rw [h]
    exact .refl _
  · rw [h, labels_placeEdge]
    exact .add hs.sound.labels_sound edge.label

theorem keepsLabels_removeEdge (edge : Edge) (s : Session) :
    KeepsLabels s (removeEdge edge s).2 := by
  refine .of_eq (keeps_removeEdge edge s) fun order hs => ?_
  refine removeEdge_induction (P := (·.store.labels = s.store.labels)) rfl fun slot e place _ _ => ?_
  change (s.store.unlink slot e).labels = _
  rw [Store.unlink_eq]

theorem keepsLabels_removeEach (edges : List Edge) (s : Session) :
    KeepsLabels s (removeEach edges s).2 :=
  removeEach_induction .refl .trans keepsLabels_removeEdge edges s

theorem keepsLabels_removeNode (node : Node) (s : Session) :
    KeepsLabels s (removeNode node s).2 := by
  intro order hs
  refine ⟨(keeps_removeNode node s order hs).2, ?_⟩
  exact hs.removeNode_induction (P := (s.store.labels.StaysIn ·.store.labels)) (.refl _)
    (fun slot => (keepsLabels_removeEach _ s order hs).2) fun _ _ _ _ hdone _ _ _ => hdone

theorem keepsLabels_countEach {α : Type} {call : α → Action Bool}
    (hcall : ∀ x s, KeepsLabels s (call x s).2) (xs : List α) (s : Session) :
    KeepsLabels s (countEach call xs s).2 :=
  countEach_snd (P := KeepsLabels s) (fun x _ h => h.trans (hcall x _)) xs (.refl s)

theorem keepsLabels_perform {command : Command} (h : command.isElemental = true) (s : Session) :
    KeepsLabels s (command.perform s) := by
  cases command with
  | addNode node => exact keepsLabels_addNode node s
  | removeNode node => exact keepsLabels_removeNode node s
  | addEdge edge => exact keepsLabels_addEdge edge s
  | removeEdge edge => exact keepsLabels_removeEdge edge s
  | addNodes nodes => exact keepsLabels_countEach keepsLabels_addNode nodes s
  | removeNodes nodes => exact keepsLabels_countEach keepsLabels_removeNode nodes s
  | retainNodes keep => exact keepsLabels_countEach keepsLabels_removeNode _ s
  | addEdges edges => exact keepsLabels_countEach keepsLabels_addEdge edges s
  | removeEdges edges => exact keepsLabels_countEach keepsLabels_removeEdge edges s
  | retainEdges keep => exact keepsLabels_countEach keepsLabels_removeEdge _ s
  | clear => exact .of_eq (keeps_clear s) fun _ _ => rfl
  | clearEdges => exact .of_eq (keeps_clearEdges s) fun _ _ => rfl
  | _ => cases h

end Session

end PropertyGraph

import PropertyGraph.Proofs.Walks.AfterRemoval

/-!
# What a folded walk hides while edges are removed

Of a mutual pair a folded walk hides the half that runs up, as long as the other half is there. Where
edges are removed on the way, what came before decides what is hidden behind it: once the half that runs
down came and was removed, the half that runs up comes as well, if the walk has not passed over it before.
In no other case do both come.
-/

namespace PropertyGraph

/-! ### What is still hidden -/

namespace Session

variable {s s' : Session} {order order' : List Nat} {direction : Direction} {gone : List Edge}
  {edge down up : Edge} {x y : Phase × Edge} {walk before rest : List (Phase × Edge)}
  {choices : List Bool} {chosen : Bool}

/-- A mutual pair: two stored directed edges with one label that run back along each other, the first
one from the higher slot down to the lower one. -/
structure Halves (s : Session) (down up : Edge) : Prop where
  down_stored : s.containsEdge down = true
  up_stored : s.containsEdge up = true
  down_directed : down.directed = true
  up_directed : up.directed = true
  source_eq : down.source = up.target
  target_eq : down.target = up.source
  label_eq : down.label = up.label
  runsDown : s.RunsDown down

/-- A loop that comes in on a walk both ways, where it went out before. -/
def Returns (direction : Direction) (x : Phase × Edge) : Prop :=
  direction = .both ∧ x.1 = .incoming ∧ x.2.source = x.2.target

/-- What a folded walk passes over where some edges are gone: the half of a mutual pair that runs up, as
long as the other half is there, and the return of a loop. -/
def StillHides (s : Session) (direction : Direction) (gone : List Edge) (x : Phase × Edge) : Prop :=
  (∃ down, s.Halves down x.2 ∧ down ∉ gone) ∨ Returns direction x

theorem isPaired_and_runsUp_iff (hup : s.containsEdge up = true) :
    s.IsPaired up ∧ s.RunsUp up ↔ ∃ down, s.Halves down up := by
  constructor
  · rintro ⟨⟨hdirected, _, down, hdown, hdirected', hsource, htarget, hlabel⟩, n, m, hn, hm, hlt⟩
    exact ⟨down, hdown, hup, hdirected', hdirected, hsource, htarget, hlabel, m, n,
      hsource ▸ hm, htarget ▸ hn, hlt⟩
  · rintro ⟨down, h⟩
    obtain ⟨m, n, hm, hn, hlt⟩ := h.runsDown
    rw [h.source_eq] at hm
    rw [h.target_eq] at hn
    have hne : up.source ≠ up.target := by
      intro hloop
      rw [hloop, hm, Except.ok.injEq, Option.some.injEq] at hn
      omega
    exact ⟨⟨h.up_directed, hne, down, h.down_stored, h.down_directed, h.source_eq, h.target_eq,
      h.label_eq⟩, n, m, hn, hm, hlt⟩

namespace RemovesItems

theorem containsEdge_iff (h : RemovesItems (gone.map (.edge · none)) s s') :
    s'.containsEdge edge = true ↔ s.containsEdge edge = true ∧ edge ∉ gone := by
  rw [h.containsEdge_eq, Bool.and_eq_true, Bool.not_eq_true', List.any_map, List.any_eq_false]
  refine and_congr_right fun _ => ?_
  simp only [Function.comp_apply, Item.takesEdge, decide_eq_true_iff]
  constructor
  · intro hother hmem
    exact hother edge hmem rfl
  · rintro hmem other hother rfl
    exact hmem hother

theorem nodeSlot?_iff (h : RemovesItems (gone.map (.edge · none)) s s') (hs : s.Consistent order)
    (hs' : s'.Consistent order') {node : Node} {n : Nat} :
    s'.nodeSlot? node = .ok (some n) ↔ s.nodeSlot? node = .ok (some n) := by
  have hnode : s'.store.node? n = s.store.node? n := by
    rw [h.node?_eq]
    cases s.store.node? n <;> simp [Item.takesNode]
  constructor
  · intro hslot
    exact hs.nodeSlot?_eq (hnode ▸ node?_of_nodeSlot? hslot)
  · intro hslot
    exact hs'.nodeSlot?_eq (hnode.trans (node?_of_nodeSlot? hslot))

theorem halves_iff (h : RemovesItems (gone.map (.edge · none)) s s') (hs : s.Consistent order)
    (hs' : s'.Consistent order') (hup : s'.containsEdge up = true) :
    s'.Halves down up ↔ s.Halves down up ∧ down ∉ gone := by
  have hdown : s'.RunsDown down ↔ s.RunsDown down := by
    simp only [RunsDown, h.nodeSlot?_iff hs hs']
  constructor
  · intro hhalves
    obtain ⟨hstored, hkept⟩ := h.containsEdge_iff.mp hhalves.down_stored
    exact ⟨{ hhalves with
      down_stored := hstored
      up_stored := (h.containsEdge_iff.mp hup).1
      runsDown := hdown.mp hhalves.runsDown }, hkept⟩
  · rintro ⟨hhalves, hkept⟩
    exact { hhalves with
      down_stored := h.containsEdge_iff.mpr ⟨hhalves.down_stored, hkept⟩
      up_stored := hup
      runsDown := hdown.mpr hhalves.runsDown }

theorem passesOver_iff (h : RemovesItems (gone.map (.edge · none)) s s') (hs : s.Consistent order)
    (hs' : s'.Consistent order') (hx : s'.containsEdge x.2 = true) :
    s'.PassesOver direction x ↔ s.StillHides direction gone x := by
  refine or_congr ?_ Iff.rfl
  rw [isPaired_and_runsUp_iff hx]
  exact exists_congr fun down => h.halves_iff hs hs' hx

end RemovesItems

/-! ### A folded walk with removals -/

open Classical in
/-- What comes of a walk, each edge with the choice whether it is removed then, when what is hidden is
passed over; some edges are gone already. -/
noncomputable def pickFolded (s : Session) (direction : Direction) :
    List Bool → List Edge → List (Phase × Edge) → List ((Phase × Edge) × Bool)
  | chosen :: choices, gone, x :: rest =>
    if s.StillHides direction gone x then s.pickFolded direction (chosen :: choices) gone rest
    else (x, chosen) ::
      s.pickFolded direction choices (if chosen then gone ++ [x.2] else gone) rest
  | _, _, _ => []

theorem pickFolded_nil : s.pickFolded direction [] gone walk = [] := by
  rw [pickFolded]
  all_goals simp

theorem pickFolded_of_hidden (h : s.StillHides direction gone x) :
    s.pickFolded direction choices gone (x :: rest) = s.pickFolded direction choices gone rest := by
  cases choices with
  | nil => rw [pickFolded_nil, pickFolded_nil]
  | cons chosen choices => rw [pickFolded, if_pos h]

theorem pickFolded_of_shown (h : ¬ s.StillHides direction gone x) :
    s.pickFolded direction (chosen :: choices) gone (x :: rest) = (x, chosen) ::
      s.pickFolded direction choices (if chosen then gone ++ [x.2] else gone) rest := by
  rw [pickFolded, if_neg h]

theorem pickFolded_append (h : ∀ y ∈ before, s.StillHides direction gone y) :
    s.pickFolded direction choices gone (before ++ rest) = s.pickFolded direction choices gone rest := by
  induction before with
  | nil => rfl
  | cons y before ih =>
    rw [List.cons_append, pickFolded_of_hidden (h y List.mem_cons_self)]
    exact ih fun z hz => h z (List.mem_cons_of_mem y hz)

theorem mem_pickFolded {z : (Phase × Edge) × Bool} (h : z ∈ s.pickFolded direction choices gone walk) :
    z.1 ∈ walk ∧ ¬ Returns direction z.1 := by
  fun_induction s.pickFolded direction choices gone walk with
  | case1 chosen choices gone x rest hhidden ih =>
    exact ⟨List.mem_cons_of_mem x (ih h).1, (ih h).2⟩
  | case2 chosen choices gone x rest hshown ih =>
    rcases List.mem_cons.mp h with rfl | h
    · exact ⟨List.mem_cons_self, fun hreturns => hshown (.inr hreturns)⟩
    · exact ⟨List.mem_cons_of_mem x (ih h).1, (ih h).2⟩
  | case3 => cases h

theorem pairwise_pickFolded (h : walk.Pairwise fun x y => y.2 = x.2 → Returns direction y) :
    (s.pickFolded direction choices gone walk).Pairwise (·.1.2 ≠ ·.1.2) := by
  fun_induction s.pickFolded direction choices gone walk with
  | case1 chosen choices gone x rest hhidden ih => exact ih (List.pairwise_cons.mp h).2
  | case2 chosen choices gone x rest hshown ih =>
    obtain ⟨hfirst, hrest⟩ := List.pairwise_cons.mp h
    refine List.pairwise_cons.mpr ⟨fun z hz hsame => ?_, ih hrest⟩
    obtain ⟨hmem, hnot⟩ := mem_pickFolded hz
    exact hnot (hfirst z.1 hmem hsame.symm)
  | case3 => exact List.Pairwise.nil

/-- The half that runs up comes only where the other half is gone, which it is from the start or since it
came. -/
theorem Halves.of_mem_pickFolded (h : s.Halves down up) {p : Phase}
    (hmem : ((p, up), chosen) ∈ s.pickFolded direction choices gone walk) :
    down ∈ gone ∨ ∃ q, [((q, down), true), ((p, up), chosen)].Sublist
      (s.pickFolded direction choices gone walk) := by
  fun_induction s.pickFolded direction choices gone walk with
  | case1 chosen' choices gone x rest hhidden ih => exact ih hmem
  | case2 chosen' choices gone x rest hshown ih =>
    rcases List.mem_cons.mp hmem with heq | hmem'
    · cases heq
      by_contra hnot
      exact hshown (.inl ⟨down, h, fun hgone => hnot (.inl hgone)⟩)
    · rcases ih hmem' with hgone | ⟨q, hsub⟩
      · cases chosen' with
        | false => exact .inl hgone
        | true =>
          rcases List.mem_append.mp hgone with hgone | hgone
          · exact .inl hgone
          · rw [List.mem_singleton] at hgone
            subst hgone
            exact .inr ⟨x.1, (List.singleton_sublist.mpr hmem').cons_cons _⟩
      · exact .inr ⟨q, hsub.cons _⟩
  | case3 => cases hmem

/-! ### A pair -/

theorem halves_paired : paired.Halves edgeBA edgeAB := by
  obtain ⟨order, hrecorded⟩ := paired_joined.1.recorded
  have hs := hrecorded.consistent
  refine ⟨(hrecorded.mem_iff _).mp (by decide), (hrecorded.mem_iff _).mp (by decide), rfl, rfl, rfl,
    rfl, rfl, 1, 0, hs.nodeSlot?_eq paired_joined.2.2.nodeB_there,
      hs.nodeSlot?_eq paired_joined.2.2.nodeA_there, by decide⟩

theorem adjacency_paired : paired.adjacency nodeB .both none false =
    .ok [(.outgoing, edgeBA), (.incoming, edgeAB)] := by
  obtain ⟨order, hrecorded⟩ := paired_joined.1.recorded
  have hnode : paired.containsNode nodeB = true :=
    hrecorded.consistent.containsNode_iff.mpr ⟨1, paired_joined.2.2.nodeB_there⟩
  have hid : paired.store.labels.idOf? "path" = some 0 := by
    rw [labels_paired, labels_add_lone]
    exact Std.HashMap.getElem?_insert_self
  have hids : paired.store.labelIds none = [0] := by
    rw [Store.labelIds, labels_paired, labels_add_lone]
    rfl
  rw [(hrecorded.walksExactly hnode).plain .both none, edgesAround, hids]
  simp [Direction.phases, Store.chainHas, hid, edgeAB, edgeBA, Edge.node, Phase.role, nodeA, nodeB]

theorem pickFolded_paired : paired.pickFolded .both [true, true] []
    [(.outgoing, edgeBA), (.incoming, edgeAB)] =
      [((.outgoing, edgeBA), true), ((.incoming, edgeAB), true)] := by
  obtain ⟨order, hrecorded⟩ := paired_joined.1.recorded
  have hdown : ¬ paired.StillHides .both [] (.outgoing, edgeBA) := by
    rintro (⟨down, hhalves, _⟩ | ⟨_, hphase, _⟩)
    · obtain rfl | rfl : down = edgeAB ∨ down = edgeBA := by
        simpa using (hrecorded.mem_iff down).mpr hhalves.down_stored
      · obtain ⟨n, m, hn, _, hlt⟩ := hhalves.runsDown
        change paired.nodeSlot? nodeA = .ok (some n) at hn
        rw [hrecorded.consistent.nodeSlot?_eq paired_joined.2.2.nodeA_there, Except.ok.injEq,
          Option.some.injEq] at hn
        exact absurd hlt (hn ▸ Nat.not_lt_zero m)
      · exact absurd hhalves.source_eq (by decide)
    · cases hphase
  have hup : ¬ paired.StillHides .both [edgeBA] (.incoming, edgeAB) := by
    rintro (⟨down, hhalves, hkept⟩ | ⟨_, _, hloop⟩)
    · obtain rfl | rfl : down = edgeAB ∨ down = edgeBA := by
        simpa using (hrecorded.mem_iff down).mpr hhalves.down_stored
      · exact absurd hhalves.source_eq (by decide)
      · exact hkept List.mem_cons_self
    · exact absurd hloop (by decide)
  rw [pickFolded_of_shown hdown, if_pos rfl, List.nil_append, pickFolded_of_shown hup, pickFolded_nil]

end Session

end PropertyGraph

import PropertyGraph.Proofs.Groups.Forest
import PropertyGraph.Proofs.IdSet
import PropertyGraph.Proofs.Store.Linking

/-!
# Records of views

A record is closed if it names only what is stored: its members, the ends of its edges, which must
be members too, and the nodes in its groups. Every change of the members is counted, at most once
for each member that comes or goes, so the counters cannot wrap around unnoticed within one call:
there are fewer slots than a counter has values.
-/

namespace PropertyGraph

/-! ### Counters -/

namespace Version

variable {v : Version} {nodes edges : Bool}

theorem node_bumpIf : (v.bumpIf nodes edges).node = v.node + .ofNat nodes.toNat := by
  cases nodes <;> cases edges <;> simp [bumpIf, bumpNodes, bumpEdges]

theorem edge_bumpIf : (v.bumpIf nodes edges).edge = v.edge + .ofNat edges.toNat := by
  cases nodes <;> cases edges <;> simp [bumpIf, bumpNodes, bumpEdges]

theorem eq_zero_of_add_eq {counter : Int32} {k : Nat} (hk : k < 2 ^ 31)
    (h : counter + .ofNat k = counter) : k = 0 := by
  have hzero : Int32.ofNat k = 0 := by
    rwa [← Int32.add_zero counter, Int32.add_assoc, Int32.zero_add, Int32.add_right_inj] at h
  have hint := Int32.toInt_ofNat_of_lt hk
  rw [hzero, Int32.toInt_zero] at hint
  exact_mod_cast hint.symm

theorem bumpIf_eq_iff : v.bumpIf nodes edges = v ↔ nodes = false ∧ edges = false := by
  constructor
  · intro h
    have hnode : (v.bumpIf nodes edges).node = _ := node_bumpIf
    have hedge : (v.bumpIf nodes edges).edge = _ := edge_bumpIf
    rw [h] at hnode hedge
    constructor
    · exact Bool.toNat_eq_zero.mp (eq_zero_of_add_eq (by cases nodes <;> decide) hnode.symm)
    · exact Bool.toNat_eq_zero.mp (eq_zero_of_add_eq (by cases edges <;> decide) hedge.symm)
  · rintro ⟨rfl, rfl⟩
    rfl

/-- From the one value of a counter to the other, changes were counted that lead from one of the
sets to the other; each of them took at least one member. -/
def Counts (counter counter' : Int32) (more fewer : IdSet) : Prop :=
  ∃ k : Nat, counter' = counter + .ofNat k ∧ k + fewer.size ≤ more.size ∧ (k = 0 → more = fewer)

namespace Counts

variable {c c' c'' : Int32} {s t u : IdSet}

theorem refl (c : Int32) (s : IdSet) : Counts c c s s :=
  ⟨0, by simp, by simp, fun _ => rfl⟩

theorem trans (h : Counts c c' s t) (h' : Counts c' c'' t u) : Counts c c'' s u := by
  obtain ⟨k, rfl, hle, hzero⟩ := h
  obtain ⟨k', rfl, hle', hzero'⟩ := h'
  refine ⟨k + k', by rw [Int32.ofNat_add, Int32.add_assoc], by omega, fun h => ?_⟩
  rw [hzero (by omega), hzero' (by omega)]

theorem trans' (h : Counts c c' t s) (h' : Counts c' c'' u t) : Counts c c'' u s := by
  obtain ⟨k, rfl, hle, hzero⟩ := h
  obtain ⟨k', rfl, hle', hzero'⟩ := h'
  refine ⟨k + k', by rw [Int32.ofNat_add, Int32.add_assoc], by omega, fun h => ?_⟩
  rw [hzero' (by omega), hzero (by omega)]

theorem eq_of_eq (h : Counts c c' s t) (hsize : s.size < 2 ^ 31) (heq : c' = c) : s = t := by
  obtain ⟨k, rfl, hle, hzero⟩ := h
  exact hzero (eq_zero_of_add_eq (by omega) heq)

theorem counter_eq (h : Counts c c' s s) : c' = c := by
  obtain ⟨k, rfl, hle, _⟩ := h
  have hzero : k = 0 := by omega
  rw [hzero]
  simp

theorem of_bump {bumped : Bool} (hc : c' = c + .ofNat bumped.toNat)
    (hbumped : bumped = decide (t ≠ s)) (hsub : ∀ i, t.contains i = true → s.contains i = true) :
    Counts c c' s t := by
  refine ⟨bumped.toNat, hc, ?_, fun hzero => ?_⟩
  · by_cases heq : t = s
    · subst heq
      simp [hbumped]
    · rw [hbumped, decide_eq_true heq]
      have hmore : ∃ i, s.contains i = true ∧ t.contains i = false := by
        by_contra hnone
        refine heq (IdSet.ext fun i => ?_)
        rw [Bool.eq_iff_iff]
        refine ⟨hsub i, fun hi => ?_⟩
        by_contra hti
        exact hnone ⟨i, hi, Bool.eq_false_of_not_eq_true hti⟩
      obtain ⟨i, hi, hti⟩ := hmore
      have hle : t.size ≤ (s.erase i).size := by
        refine (IdSet.nodup_toList.subperm fun j hj => ?_).length_le
        rw [IdSet.mem_toList] at hj ⊢
        have hji : j ≠ i := by
          rintro rfl
          rw [hti] at hj
          cases hj
        simp [hsub j hj, hji]
      have herase := IdSet.size_erase hi
      rw [Bool.toNat_true]
      omega
  · rw [Bool.toNat_eq_zero, hbumped, decide_eq_false_iff_not, not_not] at hzero
    exact hzero.symm

end Counts

end Version

namespace ViewRecord

variable {s s' : Store} {r r' r'' : ViewRecord} {slot n i : Nat} {nodes edges : IdSet}
  {gone gone' lost lost' : Nat → Bool}

/-! ### Closed records -/

/-- The record names only what is stored, and an edge is a member only if both its ends are. -/
structure Closed (s : Store) (r : ViewRecord) : Prop where
  node_live : ∀ n, r.nodes.contains n = true → (s.node? n).isSome
  edge_live : ∀ i, r.edges.contains i = true →
    ∃ x, s.fixed? i = some x ∧ ∀ p : Phase, r.nodes.contains (x.2.1.get p) = true
  forest_valid : ∀ f, r.groups = some f → f.Valid
  group_live : ∀ f, r.groups = some f → ∀ child parent, f.parent? child = some parent →
    (s.node? child).isSome ∧ (s.node? parent).isSome

namespace Closed

theorem mono (h : r.Closed s) (hnodes : ∀ n, (s.node? n).isSome → (s'.node? n).isSome)
    (hedges : ∀ i x, s.fixed? i = some x → s'.fixed? i = some x) : r.Closed s' where
  node_live := fun n hn => hnodes n (h.node_live n hn)
  edge_live := by
    intro i hi
    obtain ⟨x, hx, hends⟩ := h.edge_live i hi
    exact ⟨x, hedges i x hx, hends⟩
  forest_valid := h.forest_valid
  group_live := by
    intro f hf child parent hparent
    obtain ⟨hchild, hparent⟩ := h.group_live f hf child parent hparent
    exact ⟨hnodes child hchild, hnodes parent hparent⟩

theorem iff_of_eq (hnodes : ∀ n, s'.node? n = s.node? n) (hedges : ∀ i, s'.fixed? i = s.fixed? i) :
    r.Closed s' ↔ r.Closed s := by
  constructor
  · exact fun h => h.mono (fun n hn => by rwa [← hnodes]) fun i x hx => by rwa [← hedges]
  · exact fun h => h.mono (fun n hn => by rwa [hnodes]) fun i x hx => by rwa [hedges]

theorem of_eq (h : r.Closed s) (hnodes : r'.nodes = r.nodes) (hedges : r'.edges = r.edges)
    (hgroups : r'.groups = r.groups) : r'.Closed s where
  node_live := hnodes ▸ h.node_live
  edge_live := by
    rw [hnodes, hedges]
    exact h.edge_live
  forest_valid := hgroups ▸ h.forest_valid
  group_live := hgroups ▸ h.group_live

theorem setMembers (h : r.Closed s) (hnodes : ∀ n, nodes.contains n = true → (s.node? n).isSome)
    (hedges : ∀ i, edges.contains i = true →
      ∃ x, s.fixed? i = some x ∧ ∀ p : Phase, nodes.contains (x.2.1.get p) = true) :
    (r.setMembers nodes edges).Closed s where
  node_live := hnodes
  edge_live := hedges
  forest_valid := h.forest_valid
  group_live := h.group_live

theorem size_nodes_lt (h : r.Closed s) (hvalid : s.nodes.arena.Valid) : r.nodes.size < 2 ^ 31 := by
  have hle : r.nodes.size ≤ Arena.maxLength := by
    refine IdSet.size_le fun n hn => ?_
    have hlive := h.node_live n hn
    rw [Store.node?, Option.isSome_map, Option.isSome_iff_exists] at hlive
    obtain ⟨N, hN⟩ := hlive
    exact hvalid.lt_maxLength hN
  exact Nat.lt_of_le_of_lt hle (by decide)

theorem size_edges_lt (h : r.Closed s) (hvalid : s.edges.arena.Valid) : r.edges.size < 2 ^ 31 := by
  have hle : r.edges.size ≤ Arena.maxLength := by
    refine IdSet.size_le fun i hi => ?_
    obtain ⟨x, hx, _⟩ := h.edge_live i hi
    obtain ⟨e, he, _⟩ := Option.map_eq_some_iff.mp hx
    exact hvalid.lt_maxLength he
  exact Nat.lt_of_le_of_lt hle (by decide)

theorem regroup (h : r.Closed s) (hnodes : r'.nodes = r.nodes) (hedges : r'.edges = r.edges)
    (hgroups : ∀ f, r'.groups = some f → f = {}) : r'.Closed s where
  node_live := hnodes ▸ h.node_live
  edge_live := by
    rw [hnodes, hedges]
    exact h.edge_live
  forest_valid := by
    intro f hf
    rw [hgroups f hf]
    exact GroupForest.valid_empty
  group_live := by
    intro f hf child parent hparent
    rw [hgroups f hf] at hparent
    simp [GroupForest.parent?] at hparent

end Closed

/-! ### Edits -/

/-- What an edit of a record does: what it makes members or puts into groups is stored, and if the
version is what it was, then so are the members and the groups. -/
structure Edit (s : Store) (r r' : ViewRecord) : Prop where
  closed : r.Closed s → r'.Closed s
  counted : r.Closed s → r'.version = r.version →
    r'.nodes = r.nodes ∧ r'.edges = r.edges ∧ r'.groups = r.groups

namespace Edit

theorem of_store_eq (h : Edit s' r r') (hnodes : ∀ n, s'.node? n = s.node? n)
    (hedges : ∀ i, s'.fixed? i = s.fixed? i) : Edit s r r' where
  closed := by simpa only [Closed.iff_of_eq hnodes hedges] using h.closed
  counted := by simpa only [Closed.iff_of_eq hnodes hedges] using h.counted

theorem setMembers (h : r.Closed s → (r.setMembers nodes edges).Closed s) :
    Edit s r (r.setMembers nodes edges) where
  closed := h
  counted := by
    intro _ hversion
    rw [ViewRecord.setMembers, Version.bumpIf_eq_iff] at hversion
    simpa [ViewRecord.setMembers] using hversion

theorem of_eq (hnodes : r'.nodes = r.nodes) (hedges : r'.edges = r.edges)
    (hgroups : r'.groups = r.groups) : Edit s r r' where
  closed := fun h => h.of_eq hnodes hedges hgroups
  counted := fun _ _ => ⟨hnodes, hedges, hgroups⟩

theorem setGroups {f f' : GroupForest Nat} {changed : Bool} (hf : r.groups = some f)
    (hvalid : r.Closed s → f'.Valid ∧ ∀ child parent, f'.parent? child = some parent →
      (s.node? child).isSome ∧ (s.node? parent).isSome)
    (hsame : changed = false → f' = f) :
    Edit s r ({ r with groups := some f' }.bumpIf changed changed) where
  closed := by
    intro h
    refine ⟨h.node_live, h.edge_live, fun g hg => ?_, fun g hg => ?_⟩
    · cases hg
      exact (hvalid h).1
    · cases hg
      exact (hvalid h).2
  counted := by
    intro _ hversion
    rw [bumpIf, Version.bumpIf_eq_iff] at hversion
    refine ⟨rfl, rfl, ?_⟩
    rw [hf, ← hsame hversion.1]
    rfl

theorem addEdge {x : Edge × Sides Nat × Nat} (hx : s.fixed? slot = some x) :
    Edit s r (r.addEdge slot (x.2.1.get .outgoing) (x.2.1.get .incoming)).2 := by
  rw [ViewRecord.addEdge]
  split
  · next hends =>
    rw [Bool.and_eq_true] at hends
    refine setMembers fun h => h.setMembers h.node_live fun i hi => ?_
    rw [IdSet.contains_insert, Bool.or_eq_true, decide_eq_true_iff] at hi
    rcases hi with hi | rfl
    · exact h.edge_live i hi
    · refine ⟨x, hx, fun p => ?_⟩
      cases p with
      | outgoing => exact hends.1
      | incoming => exact hends.2
  · exact of_eq rfl rfl rfl

theorem removeNode {incident : List Nat}
    (hincident : ∀ i x p, s.fixed? i = some x → x.2.1.get p = slot → i ∈ incident) :
    Edit s r (r.removeNode slot incident).2 := by
  rw [ViewRecord.removeNode]
  split
  · refine setMembers fun h => h.setMembers (fun n hn => ?_) fun i hi => ?_
    · rw [IdSet.contains_erase, Bool.and_eq_true] at hn
      exact h.node_live n hn.1
    · rw [IdSet.contains_foldl_erase, Bool.and_eq_true, Bool.not_eq_true', decide_eq_false_iff_not]
        at hi
      obtain ⟨x, hx, hends⟩ := h.edge_live i hi.1
      refine ⟨x, hx, fun p => ?_⟩
      have hne : x.2.1.get p ≠ slot := fun heq => hi.2 (hincident i x p hx heq)
      simp [hends p, hne]
  · exact of_eq rfl rfl rfl

theorem removeEdge : Edit s r (r.removeEdge slot).2 := by
  refine setMembers fun h => h.setMembers h.node_live fun i hi => ?_
  rw [IdSet.contains_erase, Bool.and_eq_true] at hi
  exact h.edge_live i hi.1

theorem fill {nodes edges : List Nat} (hnodes : ∀ n, n ∈ nodes ↔ (s.node? n).isSome)
    (hedges : ∀ i ∈ edges, ∃ x, s.fixed? i = some x ∧ ∀ p : Phase, (s.node? (x.2.1.get p)).isSome) :
    Edit s r (r.fill nodes edges) := by
  refine setMembers fun h => h.setMembers (fun n hn => ?_) fun i hi => ?_
  · rw [IdSet.contains_foldl_insert, Bool.or_eq_true, decide_eq_true_iff] at hn
    exact hn.elim (h.node_live n) (hnodes n).mp
  · rw [IdSet.contains_foldl_insert, Bool.or_eq_true, decide_eq_true_iff] at hi
    rcases hi with hi | hi
    · obtain ⟨x, hx, hends⟩ := h.edge_live i hi
      refine ⟨x, hx, fun p => ?_⟩
      rw [IdSet.contains_foldl_insert, hends p, Bool.true_or]
    · obtain ⟨x, hx, hends⟩ := hedges i hi
      refine ⟨x, hx, fun p => ?_⟩
      rw [IdSet.contains_foldl_insert, Bool.or_eq_true, decide_eq_true_iff]
      exact .inr ((hnodes _).mpr (hends p))

theorem clear : Edit s r r.clear :=
  setMembers fun h => h.setMembers (by simp) (by simp)

theorem union (hother : r'.Closed s) : Edit s r (r.union r'.nodes r'.edges) := by
  refine setMembers fun h => h.setMembers (fun n hn => ?_) fun i hi => ?_
  · rw [IdSet.contains_union, Bool.or_eq_true] at hn
    exact hn.elim (h.node_live n) (hother.node_live n)
  · rw [IdSet.contains_union, Bool.or_eq_true] at hi
    rcases hi with hi | hi
    · obtain ⟨x, hx, hends⟩ := h.edge_live i hi
      exact ⟨x, hx, fun p => by simp [hends p]⟩
    · obtain ⟨x, hx, hends⟩ := hother.edge_live i hi
      exact ⟨x, hx, fun p => by simp [hends p]⟩

theorem inter (hother : r'.Closed s) : Edit s r (r.inter r'.nodes r'.edges) := by
  refine setMembers fun h => h.setMembers (fun n hn => ?_) fun i hi => ?_
  · rw [IdSet.contains_inter, Bool.and_eq_true] at hn
    exact h.node_live n hn.1
  · rw [IdSet.contains_inter, Bool.and_eq_true] at hi
    obtain ⟨x, hx, hends⟩ := h.edge_live i hi.1
    obtain ⟨y, hy, hends'⟩ := hother.edge_live i hi.2
    rw [hx, Option.some.injEq] at hy
    subst hy
    exact ⟨x, hx, fun p => by simp [hends p, hends' p]⟩

theorem complement {nodes : List Nat} {edges : List (Nat × Nat × Nat)}
    (hnodes : ∀ n ∈ nodes, (s.node? n).isSome)
    (hedges : ∀ y ∈ edges, ∃ x, s.fixed? y.1 = some x ∧ x.2.1 = ⟨y.2.1, y.2.2⟩) :
    Edit s r (r.complement nodes edges) := by
  refine setMembers fun h => h.setMembers (fun n hn => ?_) fun i hi => ?_
  · rw [IdSet.contains_diff, IdSet.contains_ofList, Bool.and_eq_true, decide_eq_true_iff] at hn
    exact hnodes n hn.1
  · rw [IdSet.contains_ofList, decide_eq_true_iff, List.mem_map] at hi
    obtain ⟨y, hy, rfl⟩ := hi
    obtain ⟨hmem, hfree⟩ := List.mem_filter.mp hy
    obtain ⟨x, hx, hends⟩ := hedges y hmem
    simp only [Bool.and_eq_true] at hfree
    refine ⟨x, hx, fun p => ?_⟩
    rw [hends]
    cases p with
    | outgoing => exact hfree.1.2
    | incoming => exact hfree.2

theorem complement_stored {order : List Nat} (hs : s.Sound order) :
    Edit s r (r.complement s.nodes.slots
      (s.edges.arena.toList.map fun (i, e) => (i, e.source, e.target))) := by
  refine complement (fun n hn => hs.mem_nodeSlots.mp hn) fun y hy => ?_
  obtain ⟨⟨i, e⟩, hmem, rfl⟩ := List.mem_map.mp hy
  have he : s.edges.get? i = some e := hs.edges_valid.toLaid.mem_toList.mp hmem
  exact ⟨e.fixed, by rw [Store.fixed?, he, Option.map_some], rfl⟩

end Edit

/-! ### Adding nodes one after the other -/

/-- Nodes that are stored became members, each of them counted. -/
structure Grown (s : Store) (r r' : ViewRecord) : Prop where
  closed : r.Closed s → r'.Closed s
  nodes : Version.Counts r.version.node r'.version.node r'.nodes r.nodes
  edges : r'.edges = r.edges
  groups : r'.groups = r.groups

namespace Grown

theorem refl (s : Store) (r : ViewRecord) : Grown s r r :=
  ⟨id, .refl _ _, rfl, rfl⟩

theorem trans (h : Grown s r r') (h' : Grown s r' r'') : Grown s r r'' :=
  ⟨h'.closed ∘ h.closed, h.nodes.trans' h'.nodes, h'.edges.trans h.edges, h'.groups.trans h.groups⟩

theorem addNode (hlive : (s.node? slot).isSome) : Grown s r (r.addNode slot).2 where
  closed := by
    refine fun h => h.setMembers (fun n hn => ?_) fun i hi => ?_
    · rw [IdSet.contains_insert, Bool.or_eq_true, decide_eq_true_iff] at hn
      rcases hn with hn | rfl
      · exact h.node_live n hn
      · exact hlive
    · obtain ⟨x, hx, hends⟩ := h.edge_live i hi
      exact ⟨x, hx, fun p => by simp [hends p]⟩
  nodes := by
    refine .of_bump Version.node_bumpIf (decide_eq_decide.mpr ⟨Ne.symm, Ne.symm⟩) fun i hi => ?_
    change (r.nodes.insert slot).contains i = true
    rw [IdSet.contains_insert, hi, Bool.true_or]
  edges := rfl
  groups := rfl

theorem edit (h : Grown s r r') (hvalid : s.nodes.arena.Valid) : Edit s r r' where
  closed := h.closed
  counted := fun hr hversion =>
    ⟨h.nodes.eq_of_eq ((h.closed hr).size_nodes_lt hvalid) (congrArg Version.node hversion), h.edges,
      h.groups⟩

end Grown

/-! ### What leaves the store leaves the views -/

namespace Closed

theorem forgetNode (h : r.Closed s) (hnodes : ∀ n, n ≠ slot → s'.node? n = s.node? n)
    (hedges : ∀ i, s'.fixed? i = s.fixed? i)
    (hbare : ∀ i x p, s.fixed? i = some x → x.2.1.get p ≠ slot) : (r.forgetNode slot).Closed s' where
  node_live := by
    intro n hn
    change (r.nodes.erase slot).contains n = true at hn
    rw [IdSet.contains_erase, Bool.and_eq_true, Bool.not_eq_true', decide_eq_false_iff_not] at hn
    rw [hnodes n hn.2]
    exact h.node_live n hn.1
  edge_live := by
    intro i hi
    obtain ⟨x, hx, hends⟩ := h.edge_live i hi
    refine ⟨x, (hedges i).trans hx, fun p => ?_⟩
    change (r.nodes.erase slot).contains (x.2.1.get p) = true
    rw [IdSet.contains_erase, hends p, decide_eq_false (hbare i x p hx)]
    rfl
  forest_valid := by
    intro f' hf'
    obtain ⟨f, hf, rfl⟩ := Option.map_eq_some_iff.mp hf'
    exact (h.forest_valid f hf).remove slot
  group_live := by
    intro f' hf' child parent hparent
    obtain ⟨f, hf, rfl⟩ := Option.map_eq_some_iff.mp hf'
    have hvalid := h.forest_valid f hf
    rw [hvalid.parent?_remove] at hparent
    split at hparent
    · cases hparent
    · next hkeep =>
      rw [Bool.or_eq_true, beq_iff_eq, List.contains_iff_mem, hvalid.mem_children_iff, hparent,
        Option.some.injEq, not_or] at hkeep
      rw [hnodes child hkeep.1, hnodes parent hkeep.2]
      exact h.group_live f hf child parent hparent

theorem forgetEdge (h : r.Closed s) (hnodes : ∀ n, s'.node? n = s.node? n)
    (hedges : ∀ i, i ≠ slot → s'.fixed? i = s.fixed? i) : (r.forgetEdge slot).Closed s' where
  node_live := by
    intro n hn
    rw [hnodes]
    exact h.node_live n hn
  edge_live := by
    intro i hi
    change (r.edges.erase slot).contains i = true at hi
    rw [IdSet.contains_erase, Bool.and_eq_true, Bool.not_eq_true', decide_eq_false_iff_not] at hi
    obtain ⟨x, hx, hends⟩ := h.edge_live i hi.1
    exact ⟨x, (hedges i hi.2).trans hx, hends⟩
  forest_valid := h.forest_valid
  group_live := by
    intro f hf child parent hparent
    rw [hnodes, hnodes]
    exact h.group_live f hf child parent hparent

theorem clearEdges (h : r.Closed s) (hnodes : ∀ n, s'.node? n = s.node? n) :
    r.clearEdges.Closed s' where
  node_live := by
    intro n hn
    rw [hnodes]
    exact h.node_live n hn
  edge_live := by
    intro i hi
    change IdSet.empty.contains i = true at hi
    rw [IdSet.contains_empty] at hi
    cases hi
  forest_valid := h.forest_valid
  group_live := by
    intro f hf child parent hparent
    rw [hnodes, hnodes]
    exact h.group_live f hf child parent hparent

theorem forgetAll : r.forgetAll.Closed s' where
  node_live := by
    intro n hn
    change IdSet.empty.contains n = true at hn
    rw [IdSet.contains_empty] at hn
    cases hn
  edge_live := by
    intro i hi
    change IdSet.empty.contains i = true at hi
    rw [IdSet.contains_empty] at hi
    cases hi
  forest_valid := by
    intro f' hf'
    obtain ⟨f, _, rfl⟩ := Option.map_eq_some_iff.mp hf'
    exact GroupForest.valid_empty
  group_live := by
    intro f' hf' child parent hparent
    obtain ⟨f, _, rfl⟩ := Option.map_eq_some_iff.mp hf'
    simp [GroupForest.clear, GroupForest.parent?] at hparent

end Closed

/-- Nodes and edges were forgotten: exactly those members went, each of them counted, and what lay
above the other nodes stayed up to the first forgotten one. -/
structure Shrunk (gone lost : Nat → Bool) (r r' : ViewRecord) : Prop where
  nodes : Version.Counts r.version.node r'.version.node r.nodes r'.nodes
  edges : Version.Counts r.version.edge r'.version.edge r.edges r'.edges
  contains_nodes : ∀ n, r'.nodes.contains n = (r.nodes.contains n && !gone n)
  contains_edges : ∀ i, r'.edges.contains i = (r.edges.contains i && !lost i)
  groups : (r.groups = none ∧ r'.groups = none) ∨
    ∃ f f', r.groups = some f ∧ r'.groups = some f' ∧ GroupForest.Pruned gone f f'

namespace Shrunk

theorem refl (r : ViewRecord) : Shrunk (fun _ => false) (fun _ => false) r r where
  nodes := .refl _ _
  edges := .refl _ _
  contains_nodes := by simp
  contains_edges := by simp
  groups := by
    cases hf : r.groups with
    | none => exact .inl ⟨rfl, rfl⟩
    | some f => exact .inr ⟨f, f, rfl, rfl, .refl f⟩

theorem trans (h : Shrunk gone lost r r') (h' : Shrunk gone' lost' r' r'') :
    Shrunk (fun n => gone n || gone' n) (fun i => lost i || lost' i) r r'' where
  nodes := h.nodes.trans h'.nodes
  edges := h.edges.trans h'.edges
  contains_nodes := by
    intro n
    rw [h'.contains_nodes, h.contains_nodes, Bool.not_or, Bool.and_assoc]
  contains_edges := by
    intro i
    rw [h'.contains_edges, h.contains_edges, Bool.not_or, Bool.and_assoc]
  groups := by
    rcases h.groups with ⟨hf, hf'⟩ | ⟨f, f', hf, hf', hpruned⟩
    · rcases h'.groups with ⟨_, hf''⟩ | ⟨_, _, hsome, _⟩
      · exact .inl ⟨hf, hf''⟩
      · rw [hf'] at hsome
        cases hsome
    · rcases h'.groups with ⟨hnone, _⟩ | ⟨g, f'', hg, hf'', hpruned'⟩
      · rw [hf'] at hnone
        cases hnone
      · rw [hf', Option.some.injEq] at hg
        subst hg
        exact .inr ⟨f, f'', hf, hf'', hpruned.trans hpruned'⟩

theorem hides_eq (h : Shrunk gone lost r r') (hn : gone n = false) :
    r'.hides n =
      r.groups.any fun f => ((f.ancestors n).takeWhile fun x => !gone x).any f.isCollapsed := by
  rw [hides]
  rcases h.groups with ⟨hf, hf'⟩ | ⟨f, f', hf, hf', hpruned⟩
  · rw [hf, hf']
    rfl
  · rw [hf, hf']
    exact hpruned.isHidden_eq hn

theorem members_eq (h : Shrunk gone lost r r')
    (hgone : ∀ n, r.nodes.contains n = true → gone n = false)
    (hlost : ∀ i, r.edges.contains i = true → lost i = false) :
    r'.nodes = r.nodes ∧ r'.edges = r.edges := by
  refine ⟨IdSet.ext fun n => ?_, IdSet.ext fun i => ?_⟩
  · rw [h.contains_nodes]
    cases hn : r.nodes.contains n with
    | false => rfl
    | true => rw [hgone n hn]; rfl
  · rw [h.contains_edges]
    cases hi : r.edges.contains i with
    | false => rfl
    | true => rw [hlost i hi]; rfl

theorem version_eq_iff (h : Shrunk gone lost r r') (hnodes : r.nodes.size < 2 ^ 31)
    (hedges : r.edges.size < 2 ^ 31) : r'.version = r.version ↔
      (∀ n, r.nodes.contains n = true → gone n = false) ∧
        ∀ i, r.edges.contains i = true → lost i = false := by
  constructor
  · intro hversion
    have hsame := h.nodes.eq_of_eq hnodes (congrArg (·.node) hversion)
    have hsame' := h.edges.eq_of_eq hedges (congrArg (·.edge) hversion)
    refine ⟨fun n hn => ?_, fun i hi => ?_⟩
    · have hn' := h.contains_nodes n
      rw [← hsame, hn, Bool.true_and] at hn'
      exact (Bool.not_eq_true' _).mp hn'.symm
    · have hi' := h.contains_edges i
      rw [← hsame', hi, Bool.true_and] at hi'
      exact (Bool.not_eq_true' _).mp hi'.symm
  · rintro ⟨hgone, hlost⟩
    obtain ⟨hsame, hsame'⟩ := h.members_eq hgone hlost
    have hnode := h.nodes
    have hedge := h.edges
    rw [hsame] at hnode
    rw [hsame'] at hedge
    have hv : r'.version = ⟨r'.version.node, r'.version.edge⟩ := rfl
    rw [hv, hnode.counter_eq, hedge.counter_eq]

theorem forgetNode (hclosed : r.Closed s) :
    Shrunk (· == slot) (fun _ => false) r (r.forgetNode slot) where
  nodes := by
    refine .of_bump Version.node_bumpIf rfl fun i hi => ?_
    change (r.nodes.erase slot).contains i = true at hi
    rw [IdSet.contains_erase, Bool.and_eq_true] at hi
    exact hi.1
  edges := by
    change Version.Counts r.version.edge (r.version.bumpIf _ _).edge r.edges r.edges
    rw [Version.edge_bumpIf]
    simpa using Version.Counts.refl _ _
  contains_nodes := by
    intro n
    change (r.nodes.erase slot).contains n = _
    rw [IdSet.contains_erase]
    rfl
  contains_edges := fun _ => (Bool.and_true _).symm
  groups := by
    change (r.groups = none ∧ r.groups.map _ = none) ∨ _
    cases hf : r.groups with
    | none => exact .inl ⟨rfl, rfl⟩
    | some f =>
      refine .inr ⟨f, f.remove slot, rfl, ?_, (hclosed.forest_valid f hf).pruned_remove slot⟩
      change r.groups.map _ = _
      rw [hf]
      rfl

theorem setEdges (hedges : ∀ i, edges.contains i = (r.edges.contains i && !lost i)) :
    Shrunk (fun _ => false) lost r (r.setMembers r.nodes edges) where
  nodes := by
    change Version.Counts r.version.node (r.version.bumpIf _ _).node r.nodes r.nodes
    rw [Version.node_bumpIf]
    simpa using Version.Counts.refl _ _
  edges := by
    refine .of_bump Version.edge_bumpIf rfl fun i hi => ?_
    change edges.contains i = true at hi
    rw [hedges, Bool.and_eq_true] at hi
    exact hi.1
  contains_nodes := fun _ => (Bool.and_true _).symm
  contains_edges := hedges
  groups := (refl r).groups

theorem forgetEdge : Shrunk (fun _ => false) (· == slot) r (r.forgetEdge slot) :=
  setEdges fun _ => IdSet.contains_erase

theorem clearEdges (hclosed : r.Closed s) :
    Shrunk (fun _ => false) (fun i => (s.fixed? i).isSome) r r.clearEdges := by
  refine setEdges fun i => ?_
  rw [IdSet.contains_empty]
  cases hi : r.edges.contains i with
  | false => rfl
  | true =>
    obtain ⟨x, hx, _⟩ := hclosed.edge_live i hi
    rw [hx]
    rfl

theorem forgetAll (hclosed : r.Closed s) :
    Shrunk (fun n => (s.node? n).isSome) (fun i => (s.fixed? i).isSome) r r.forgetAll where
  nodes := by
    refine .of_bump Version.node_bumpIf rfl fun i hi => ?_
    change IdSet.empty.contains i = true at hi
    rw [IdSet.contains_empty] at hi
    cases hi
  edges := by
    refine .of_bump Version.edge_bumpIf rfl fun i hi => ?_
    change IdSet.empty.contains i = true at hi
    rw [IdSet.contains_empty] at hi
    cases hi
  contains_nodes := by
    intro n
    change IdSet.empty.contains n = _
    rw [IdSet.contains_empty]
    cases hn : r.nodes.contains n with
    | false => rfl
    | true => rw [hclosed.node_live n hn]; rfl
  contains_edges := ((clearEdges hclosed).contains_edges ·)
  groups := by
    change (r.groups = none ∧ r.groups.map _ = none) ∨ _
    cases hf : r.groups with
    | none => exact .inl ⟨rfl, rfl⟩
    | some f =>
      refine .inr ⟨f, {}, rfl, ?_, fun n hn => ?_, fun n hn x hx => ?_⟩
      · change r.groups.map _ = _
        rw [hf]
        rfl
      · have hroot : f.parent? n = none := by
          rw [Option.eq_none_iff_forall_ne_some]
          intro parent hparent
          rw [(hclosed.group_live f hf n parent hparent).1] at hn
          cases hn
        rw [GroupForest.Acyclic.ancestors_of_none hroot]
        exact GroupForest.Acyclic.ancestors_of_none (by simp [GroupForest.parent?])
      · have hempty : ({} : GroupForest Nat).ancestors n = [] :=
          GroupForest.Acyclic.ancestors_of_none (by simp [GroupForest.parent?])
        rw [hempty] at hx
        cases hx

end Shrunk

end ViewRecord

end PropertyGraph

import Mathlib.Data.Set.Basic
import Mathlib.Tactic
import PropertyGraph.Catalog

/-!
# Diffs

A diff says what came and went between two memberships. As no two members have the same id, each of
its lists is strictly increasing, and whoever applies the diff to the one membership gets the other.
-/

namespace PropertyGraph

/-! ### The order of ids -/

namespace ElementId

variable {a b c : ElementId}

def Precedes : ElementId → ElementId → Prop
  | .int a, .int b => a < b
  | .int _, .str _ => True
  | .str _, .int _ => False
  | .str a, .str b => a < b

theorem compare_eq_lt_iff : compare a b = .lt ↔ a.Precedes b := by
  change ElementId.compare a b = .lt ↔ _
  cases a <;> cases b
  case int.int a b => exact Int.compare_eq_lt
  case str.str a b =>
    simp only [ElementId.compare, Precedes]
    split
    · next hlt => simp [hlt]
    · next hlt => split <;> simp [hlt]
  all_goals simp [ElementId.compare, Precedes]

theorem compare_eq_eq_iff : compare a b = .eq ↔ a = b := by
  change ElementId.compare a b = .eq ↔ _
  cases a <;> cases b
  case int.int a b => exact Int.compare_eq_eq.trans (by simp)
  case str.str a b =>
    simp only [ElementId.compare, str.injEq]
    split
    · next hlt => exact iff_of_false nofun (String.ne_of_lt hlt)
    · split <;> simp_all
  all_goals simp [ElementId.compare]

theorem isLE_iff : (compare a b).isLE = true ↔ a = b ∨ a.Precedes b := by
  rw [← compare_eq_lt_iff, ← compare_eq_eq_iff]
  cases compare a b <;> simp

theorem Precedes.trans (h : a.Precedes b) (h' : b.Precedes c) : a.Precedes c := by
  cases a <;> cases b <;> cases c
  case int.int.int => exact Int.lt_trans h h'
  case str.str.str => exact String.lt_trans h h'
  all_goals simp_all [Precedes]

theorem precedes_trichotomy (a b : ElementId) : a.Precedes b ∨ a = b ∨ b.Precedes a := by
  cases a <;> cases b
  case int.int a b =>
    rcases Int.lt_trichotomy a b with hlt | heq | hgt
    · exact .inl hlt
    · exact .inr (.inl (congrArg _ heq))
    · exact .inr (.inr hgt)
  case str.str a b =>
    rcases Std.lt_trichotomy a b with hlt | heq | hgt
    · exact .inl hlt
    · exact .inr (.inl (congrArg _ heq))
    · exact .inr (.inr hgt)
  all_goals simp [Precedes]

theorem isLE_trans (h : (compare a b).isLE = true) (h' : (compare b c).isLE = true) :
    (compare a c).isLE = true := by
  rw [isLE_iff] at h h' ⊢
  rcases h with rfl | h
  · exact h'
  · rcases h' with rfl | h'
    · exact .inr h
    · exact .inr (h.trans h')

theorem isLE_total (a b : ElementId) : ((compare a b).isLE || (compare b a).isLE) = true := by
  rw [Bool.or_eq_true, isLE_iff, isLE_iff]
  rcases precedes_trichotomy a b with hlt | heq | hgt
  · exact .inl (.inr hlt)
  · exact .inl (.inl heq)
  · exact .inr (.inr hgt)

end ElementId

/-! ### Lists in the order of ids -/

section Sorting

variable {α : Type} {id : α → ElementId} {elements : List α}

/-- The list has the elements of the set, and the ids go up from each to the next. -/
structure Enumerates (id : α → ElementId) (elements : List α) (set : Set α) : Prop where
  mem_iff : ∀ x, x ∈ elements ↔ x ∈ set
  increasing : elements.Pairwise fun x y => compare (id x) (id y) = .lt

theorem enumerates_sortedById {set : Set α} (hnodup : elements.Nodup)
    (hmem : ∀ x, x ∈ elements ↔ x ∈ set) (hid : ∀ x ∈ set, ∀ y ∈ set, id x = id y → x = y) :
    Enumerates id (Diff.sortedById id elements) set where
  mem_iff := fun x => List.mem_mergeSort.trans (hmem x)
  increasing := by
    have hsorted : (Diff.sortedById id elements).Pairwise fun x y =>
        (compare (id x) (id y)).isLE = true := by
      unfold Diff.sortedById
      refine List.pairwise_mergeSort (fun x y z hxy hyz => ?_) (fun x y => ?_) elements
      · exact ElementId.isLE_trans hxy hyz
      · exact ElementId.isLE_total (id x) (id y)
    have hdistinct : (Diff.sortedById id elements).Nodup :=
      (List.mergeSort_perm elements _).nodup_iff.mpr hnodup
    refine (List.Pairwise.and_mem.mp (hsorted.and hdistinct)).imp fun {x y} h => ?_
    obtain ⟨hx, hy, hle, hne⟩ := h
    rw [ElementId.isLE_iff] at hle
    refine ElementId.compare_eq_lt_iff.mpr (hle.resolve_left fun heq => hne ?_)
    exact hid x ((hmem x).mp (List.mem_mergeSort.mp hx)) y ((hmem y).mp (List.mem_mergeSort.mp hy))
      heq

end Sorting

/-! ### Memberships -/

/-- The nodes and edges that are there at one time. -/
@[ext]
structure Members where
  nodes : Set Node
  edges : Set Edge

namespace Members

/-- Ids tell the members apart. -/
structure Distinct (m : Members) : Prop where
  nodes : ∀ x ∈ m.nodes, ∀ y ∈ m.nodes, x.id = y.id → x = y
  edges : ∀ x ∈ m.edges, ∀ y ∈ m.edges, x.id = y.id → x = y

def apply (m : Members) (diff : Diff) : Members where
  nodes := {node | node ∈ m.nodes ∧ node ∉ diff.removedNodes ∨ node ∈ diff.addedNodes}
  edges := {edge | edge ∈ m.edges ∧ edge ∉ diff.removedEdges ∨ edge ∈ diff.addedEdges}

end Members

/-- The snapshot is one of the membership. -/
structure Snapshot.Shows (snapshot : Snapshot) (m : Members) : Prop where
  nodes : ∀ node, node ∈ snapshot.nodes ↔ node ∈ m.nodes
  edges : ∀ edge, edge ∈ snapshot.edges ↔ edge ∈ m.edges

namespace Diff

variable {m m' : Members}

/-- The diff lists what is in the one membership and not in the other. -/
structure Between (diff : Diff) (before after : Members) : Prop where
  addedNodes : Enumerates Node.id diff.addedNodes (after.nodes \ before.nodes)
  removedNodes : Enumerates Node.id diff.removedNodes (before.nodes \ after.nodes)
  addedEdges : Enumerates Edge.id diff.addedEdges (after.edges \ before.edges)
  removedEdges : Enumerates Edge.id diff.removedEdges (before.edges \ after.edges)

theorem enumerates_filter {α : Type} [BEq α] [LawfulBEq α] [Hashable α] {id : α → ElementId}
    {these those : Std.HashSet α} {here there : Set α} (hthese : ∀ x, x ∈ these ↔ x ∈ here)
    (hthose : ∀ x, x ∈ those ↔ x ∈ there) (hid : ∀ x ∈ here, ∀ y ∈ here, id x = id y → x = y) :
    Enumerates id (sortedById id (these.toList.filter (!those.contains ·))) (here \ there) := by
  refine enumerates_sortedById ?_ (fun x => ?_) fun x hx y hy => hid x hx.1 y hy.1
  · refine List.Nodup.filter _ (Std.HashSet.distinct_toList.imp fun {x y} hne heq => ?_)
    rw [heq, beq_self_eq_true] at hne
    cases hne
  · rw [List.mem_filter, Std.HashSet.mem_toList, hthese, Set.mem_sdiff, ← hthose,
      Std.HashSet.mem_iff_contains, Bool.not_eq_true', Bool.eq_false_iff]

theorem between_shows {before after : Snapshot} (h : before.Shows m) (h' : after.Shows m')
    (hm : m.Distinct) (hm' : m'.Distinct) : (between before after).Between m m' where
  addedNodes := enumerates_filter h'.nodes h.nodes hm'.nodes
  removedNodes := enumerates_filter h.nodes h'.nodes hm.nodes
  addedEdges := enumerates_filter h'.edges h.edges hm'.edges
  removedEdges := enumerates_filter h.edges h'.edges hm.edges

theorem Between.apply_eq {diff : Diff} (h : diff.Between m m') : m.apply diff = m' := by
  have hone : ∀ {α : Type} {id : α → ElementId} {here there : Set α} {removed added : List α},
      Enumerates id removed (here \ there) → Enumerates id added (there \ here) →
      {x | x ∈ here ∧ x ∉ removed ∨ x ∈ added} = there := by
    intro α id here there removed added hremoved hadded
    ext x
    rw [Set.mem_ofPred_eq, hremoved.mem_iff, hadded.mem_iff, Set.mem_sdiff, Set.mem_sdiff]
    tauto
  exact Members.ext (hone h.removedNodes h.addedNodes) (hone h.removedEdges h.addedEdges)

end Diff

end PropertyGraph

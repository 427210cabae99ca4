import PropertyGraph.Proofs.Groups.Lineage

/-!
# What collapsing, expanding and dissolving a group hide and show

Whether a node is hidden, and who stands in for it, is told by the collapsed nodes above it. To expand
a group is to take it off that list for every node. So is to dissolve it, although this hands its
children up and so takes the group off every way up that it was on.
-/

namespace PropertyGraph.GroupForest

variable {α : Type} [BEq α] [Hashable α] {f f' : GroupForest α} {node group x : α}

def collapsedAncestors (f : GroupForest α) (node : α) : List α := (f.ancestors node).filter f.isCollapsed

/-- What is shown of the forest once a group was collapsed, expanded or dissolved. -/
structure HidingEffects (f : GroupForest α) (group : α) : Prop where
  collapse_iff : (f.collapse group).1 = true ↔ f.isGroup group = true ∧ f.isCollapsed group = false
  isHidden_collapse : (f.collapse group).1 = true → ∀ x,
    ((f.collapse group).2.isHidden x = true ↔ f.isHidden x = true ∨ x ∈ f.descendants group)
  isHidden_eq : ∀ x, (f.ungroup group).2.isHidden x = (f.expand group).2.isHidden x
  standIn_eq : ∀ x, (f.ungroup group).2.standIn x = (f.expand group).2.standIn x
  isHidden_expand_iff : ∀ x, (f.expand group).2.isHidden x = true ↔
    ∃ above, above ≠ group ∧ f.IsAbove above x ∧ f.isCollapsed above = true

/-! ### Collapsed ancestors -/

theorem isHidden_iff_collapsedAncestors :
    f.isHidden x = true ↔ ∃ above, above ∈ f.collapsedAncestors x := by
  rw [isHidden, List.any_eq_true]
  exact exists_congr fun above => List.mem_filter.symm

theorem standIn_eq_collapsedAncestors : f.standIn x = (f.collapsedAncestors x).getLastD x := rfl

variable [LawfulBEq α]

theorem Acyclic.mem_collapsedAncestors_iff (h : f.Acyclic) :
    node ∈ f.collapsedAncestors x ↔ f.IsAbove node x ∧ f.isCollapsed node = true := by
  rw [collapsedAncestors, List.mem_filter, h.mem_ancestors_iff]

theorem Acyclic.ancestors_eq_of_siblings (h : f.Acyclic) (hsame : f.parent? node = f.parent? x) :
    f.ancestors node = f.ancestors x := by
  cases hparent : f.parent? x with
  | none => rw [ancestors_of_none hparent, ancestors_of_none (hsame.trans hparent)]
  | some parent => rw [h.ancestors_of_some hparent, h.ancestors_of_some (hsame.trans hparent)]

/-! ### Collapsing and expanding -/

omit [LawfulBEq α] in
theorem ancestors_of_parents_eq (hparents : f'.parents = f.parents) :
    f'.ancestors x = f.ancestors x := by
  have hclimb : ∀ steps node, f'.climb steps node = f.climb steps node := by
    intro steps
    induction steps with
    | zero => exact fun _ => rfl
    | succ steps ih =>
      intro node
      rw [climb, climb, parent?, parent?, hparents]
      simp only [ih]
  rw [ancestors, ancestors, hparents, hclimb]

omit [LawfulBEq α] in
theorem ancestors_expand : (f.expand group).2.ancestors x = f.ancestors x := by
  refine ancestors_of_parents_eq ?_
  rw [expand]
  split <;> rfl

theorem isCollapsed_expand :
    (f.expand group).2.isCollapsed x = (x != group && f.isCollapsed x) := by
  rw [expand]
  split
  · change (f.collapsed.erase group).contains x = _
    rw [Std.HashSet.contains_erase, BEq.comm]
    rfl
  · next hexpanded =>
    by_cases hx : x = group
    · simp [hx, hexpanded]
    · simp [hx]

theorem collapsedAncestors_expand :
    (f.expand group).2.collapsedAncestors x = (f.collapsedAncestors x).filter (· != group) := by
  rw [collapsedAncestors, ancestors_expand, collapsedAncestors, List.filter_filter]
  exact List.filter_congr fun node _ => isCollapsed_expand

omit [LawfulBEq α] in
theorem collapse_eq_true_iff :
    (f.collapse group).1 = true ↔ f.isGroup group = true ∧ f.isCollapsed group = false := by
  rw [collapse]
  split
  · next hgroup => simpa using hgroup
  · next hgroup => simpa using hgroup

omit [LawfulBEq α] in
theorem ancestors_collapse : (f.collapse group).2.ancestors x = f.ancestors x := by
  refine ancestors_of_parents_eq ?_
  rw [collapse]
  split <;> rfl

theorem isCollapsed_collapse (hdone : (f.collapse group).1 = true) :
    (f.collapse group).2.isCollapsed x = (x == group || f.isCollapsed x) := by
  rw [collapse] at hdone ⊢
  split
  · change (f.collapsed.insert group).contains x = _
    rw [Std.HashSet.contains_insert, BEq.comm]
    rfl
  · next hgroup =>
    rw [if_neg hgroup] at hdone
    cases hdone

namespace Valid

theorem isHidden_collapse_iff (h : f.Valid) (hdone : (f.collapse group).1 = true) :
    (f.collapse group).2.isHidden x = true ↔ f.isHidden x = true ∨ x ∈ f.descendants group := by
  rw [isHidden, ancestors_collapse, List.any_eq_true, isHidden, List.any_eq_true,
    h.mem_descendants_iff, ← h.acyclic.mem_ancestors_iff]
  simp only [isCollapsed_collapse hdone, Bool.or_eq_true, beq_iff_eq]
  constructor
  · rintro ⟨above, habove, rfl | hcollapsed⟩
    · exact .inr habove
    · exact .inl ⟨above, habove, hcollapsed⟩
  · rintro (⟨above, habove, hcollapsed⟩ | habove)
    · exact ⟨above, habove, .inr hcollapsed⟩
    · exact ⟨group, habove, .inl rfl⟩

/-! ### Dissolving -/

theorem isCollapsed_ungroup (h : f.Valid) :
    (f.ungroup group).2.isCollapsed x = (x != group && f.isCollapsed x) := by
  by_cases hgroup : f.isGroup group = true
  · rw [ungroup_of_isGroup hgroup, isCollapsed_foldl_handUp]
    exact isCollapsed_cut
  · rw [ungroup_of_not_isGroup (Bool.eq_false_of_not_eq_true hgroup)]
    by_cases hx : x = group
    · subst hx
      rw [bne_self_eq_false, Bool.false_and, Bool.eq_false_iff]
      exact fun hcollapsed => hgroup (h.isGroup_of_collapsed x hcollapsed)
    · rw [bne_iff_ne.mpr hx, Bool.true_and]

theorem ancestors_ungroup (h : f.Valid) :
    (f.ungroup group).2.ancestors x = (f.ancestors x).filter (· != group) := by
  have hacyclic := (h.ungroup group).acyclic
  have hself : (f.ungroup group).2.parent? group = f.parent? group := by
    rw [h.parent?_ungroup]
    split <;> rfl
  induction x using h.acyclic.induction with
  | root x hroot =>
    have hroot' : (f.ungroup group).2.parent? x = none := by
      rw [h.parent?_ungroup, if_neg, hroot]
      rw [h.mem_children_iff, hroot]
      nofun
    rw [Acyclic.ancestors_of_none hroot, Acyclic.ancestors_of_none hroot', List.filter_nil]
  | step x parent hparent ih =>
    have hchild : x ∈ f.children group ↔ parent = group := by
      rw [h.mem_children_iff, hparent, Option.some.injEq]
    rw [h.acyclic.ancestors_of_some hparent]
    by_cases hgroup : parent = group
    · -- What was a child of the group has the way up that the group has.
      have hsame : (f.ungroup group).2.parent? x = (f.ungroup group).2.parent? group := by
        rw [hself, h.parent?_ungroup, if_pos (hchild.mpr hgroup)]
      rw [List.filter_cons_of_neg (by simp [hgroup]), ← ih, hgroup]
      exact hacyclic.ancestors_eq_of_siblings hsame
    · have hparent' : (f.ungroup group).2.parent? x = some parent := by
        rw [h.parent?_ungroup, if_neg fun hmem => hgroup (hchild.mp hmem), hparent]
      rw [hacyclic.ancestors_of_some hparent', List.filter_cons_of_pos (by simpa using hgroup), ih]

theorem collapsedAncestors_ungroup (h : f.Valid) :
    (f.ungroup group).2.collapsedAncestors x = (f.collapsedAncestors x).filter (· != group) := by
  rw [collapsedAncestors, h.ancestors_ungroup, collapsedAncestors, List.filter_filter,
    List.filter_filter]
  refine List.filter_congr fun node _ => ?_
  rw [h.isCollapsed_ungroup]
  cases node != group <;> simp

theorem collapsedAncestors_ungroup_eq (h : f.Valid) :
    (f.ungroup group).2.collapsedAncestors x = (f.expand group).2.collapsedAncestors x := by
  rw [h.collapsedAncestors_ungroup, collapsedAncestors_expand]

theorem hidingEffects (h : f.Valid) (group : α) : f.HidingEffects group where
  collapse_iff := collapse_eq_true_iff
  isHidden_collapse := fun hdone _ => h.isHidden_collapse_iff hdone
  isHidden_eq := by
    intro x
    rw [Bool.eq_iff_iff, isHidden_iff_collapsedAncestors, isHidden_iff_collapsedAncestors,
      h.collapsedAncestors_ungroup_eq]
  standIn_eq := by
    intro x
    rw [standIn_eq_collapsedAncestors, standIn_eq_collapsedAncestors, h.collapsedAncestors_ungroup_eq]
  isHidden_expand_iff := by
    intro x
    rw [isHidden_iff_collapsedAncestors, collapsedAncestors_expand]
    refine exists_congr fun above => ?_
    rw [List.mem_filter, h.acyclic.mem_collapsedAncestors_iff, bne_iff_ne, and_comm]

end Valid

/-- Whatever calls were made, dissolving a group shows what expanding it shows. -/
theorem hidingEffects_after (calls : List (Call α)) (group : α) : (after calls).HidingEffects group :=
  (valid_after calls).hidingEffects group

theorem hidingEffects_after_nested :
    (after [Call.group 1 [2, 3], .group 2 [4], .group 4 [5], .collapse 2, .collapse 4] :
      GroupForest Nat).HidingEffects 2 :=
  hidingEffects_after _ _

end PropertyGraph.GroupForest

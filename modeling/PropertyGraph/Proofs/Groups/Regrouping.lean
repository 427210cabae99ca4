import Mathlib.Data.List.Dedup
import PropertyGraph.Proofs.Groups.Lineage

/-!
# What grouping does

Whether the members may join is asked of the forest before the call, but they are moved one at a
time, each out of the forest that the moves before it have left. The group can run empty on the way
and be a group again at the end. Parents and children do not show it: those are determined by the old
forest and the list alone, with a member that is listed twice coming where it is listed last. The flag
does: a collapsed group whose only child comes first among the members is expanded.
-/

namespace PropertyGraph.GroupForest

variable {α : Type} [BEq α] [Hashable α] {f f' : GroupForest α} {node group member x : α}
  {members : List α}

/-- The group is the node or lies beneath it, so the node cannot become a child of the group. -/
def LiesWithin (f : GroupForest α) (group node : α) : Prop := node = group ∨ f.IsAbove node group

/-- What is left of the first forest after the members were put into the group. -/
structure Regrouped [DecidableEq α] (f : GroupForest α) (group : α) (members : List α)
    (f' : GroupForest α) : Prop where
  parent_of_mem : ∀ x ∈ members, f'.parent? x = some group
  parent_of_notMem : ∀ x, x ∉ members → f'.parent? x = f.parent? x
  children_group :
    f'.children group = (f.children group).filter (!members.contains ·) ++ members.dedup
  children_of_ne : ∀ x, x ≠ group → f'.children x = (f.children x).filter (!members.contains ·)
  isGroup_iff : ∀ x, f'.isGroup x = true ↔ f'.children x ≠ []

/-- Grouping is refused for the first member that the group lies within, and then nothing changes. If
there is none, the members become the last children of the group, in the order in which they are
listed last, and nothing else moves. -/
structure GroupsExactly [DecidableEq α] (f : GroupForest α) (group : α) (members : List α) :
    Prop where
  refused_iff : (∃ member, f.group group members = .error member) ↔
    ∃ member ∈ members, f.LiesWithin group member
  refused : ∀ member, f.group group members = .error member →
    (∃ front rest, members = front ++ member :: rest ∧ f.LiesWithin group member ∧
      ∀ x ∈ front, ¬ f.LiesWithin group x) ∧
    f.perform (.group group members) = f
  done : ∀ f', f.group group members = .ok f' →
    f.perform (.group group members) = f' ∧ f.Regrouped group members f'

/-- What grouping leaves of the flags. Of the nodes that are groups before and after, only the group
itself can lose its flag, and only if the first of the members is the only child that it has. -/
structure FlagsKept (f : GroupForest α) (group : α) (members : List α) (f' : GroupForest α) :
    Prop where
  isCollapsed_iff : ∀ x, f.isGroup x = true → f'.isGroup x = true →
    (f'.isCollapsed x = true ↔
      f.isCollapsed x = true ∧ ¬ (x = group ∧ f.children x = members.take 1))
  isHidden_iff : ∀ child ∈ f'.children group,
    (f'.isHidden child = true ↔ f'.isCollapsed group = true ∨ f'.isHidden group = true)
  isHidden_group : f'.isHidden group = f.isHidden group

variable [LawfulBEq α]

/-! ### Who may join -/

namespace Valid

theorem liesWithin_iff (h : f.Valid) :
    f.LiesWithin group node ↔ (node == group || (f.ancestors group).contains node) = true := by
  rw [Bool.or_eq_true, beq_iff_eq, List.contains_iff_mem, h.acyclic.mem_ancestors_iff, LiesWithin]

theorem group_eq_error_iff (h : f.Valid) : f.group group members = .error member ↔
    ∃ front rest, members = front ++ member :: rest ∧ f.LiesWithin group member ∧
      ∀ x ∈ front, ¬ f.LiesWithin group x := by
  have hfound : f.group group members = .error member ↔ members.find?
      (fun node => node == group || (f.ancestors group).contains node) = some member := by
    rw [GroupForest.group]
    split
    · next first hfirst => rw [hfirst, Except.error.injEq, Option.some.injEq]
    · next hnone => simp only [hnone, reduceCtorEq]
  rw [hfound, List.find?_eq_some_iff_append]
  simp only [h.liesWithin_iff, Bool.not_eq_true, Bool.not_eq_eq_eq_not, Bool.not_true]
  constructor
  · rintro ⟨hwithin, front, rest, hsplit, hfront⟩
    exact ⟨front, rest, hsplit, hwithin, hfront⟩
  · rintro ⟨front, rest, hsplit, hwithin, hfront⟩
    exact ⟨hwithin, front, rest, hsplit, hfront⟩

theorem exists_group_eq_error_iff (h : f.Valid) :
    (∃ member, f.group group members = .error member) ↔
      ∃ member ∈ members, f.LiesWithin group member := by
  constructor
  · rintro ⟨member, hrefused⟩
    obtain ⟨front, rest, rfl, hwithin, -⟩ := h.group_eq_error_iff.mp hrefused
    exact ⟨member, by simp, hwithin⟩
  · rintro ⟨member, hmem, hwithin⟩
    rw [GroupForest.group]
    split
    · next first _ => exact ⟨first, rfl⟩
    · next hnone => exact absurd (h.liesWithin_iff.mp hwithin) (List.find?_eq_none.mp hnone member hmem)

/-! ### One move -/

theorem children_move_group (h : f.Valid) :
    (f.move group member).children group = (f.children group).filter (· != member) ++ [member] := by
  rw [GroupForest.move, children_attach, beq_self_eq_true, if_pos rfl, h.children_detach_eq]

theorem children_move_of_ne (h : f.Valid) (hne : x ≠ group) :
    (f.move group member).children x = (f.children x).filter (· != member) := by
  rw [GroupForest.move, children_attach, beq_false_of_ne hne, if_neg Bool.false_ne_true,
    h.children_detach_eq]

theorem isCollapsed_move_iff (h : f.Valid) : (f.move group member).isCollapsed x = true ↔
    f.isCollapsed x = true ∧ ∃ child ∈ f.children x, child ≠ member :=
  h.isCollapsed_detach_iff

end Valid

/-! ### One move after the other -/

omit [Hashable α] [LawfulBEq α] in
theorem filter_notContains_cons (kids : List α) :
    (kids.filter (· != member)).filter (!members.contains ·) =
      kids.filter (!(member :: members).contains ·) := by
  rw [List.filter_filter]
  refine List.filter_congr fun child _ => ?_
  rw [List.contains_cons, Bool.not_or, Bool.and_comm]
  rfl

namespace Moves

theorem children_of_ne (h : Moves group members f f') (hne : x ≠ group) :
    f'.children x = (f.children x).filter (!members.contains ·) := by
  induction h with
  | done _ => simp
  | move hvalid _ ih =>
    rw [ih, hvalid.children_move_of_ne hne, filter_notContains_cons]

theorem children_group [DecidableEq α] (h : Moves group members f f') :
    f'.children group = (f.children group).filter (!members.contains ·) ++ members.dedup := by
  induction h with
  | done _ => simp
  | @move member members f _ hvalid _ ih =>
    rw [ih, hvalid.children_move_group, List.filter_append, filter_notContains_cons,
      List.append_assoc]
    by_cases hmem : member ∈ members
    · rw [List.dedup_cons_of_mem hmem, List.filter_cons_of_neg (by simpa using hmem)]
      rfl
    · rw [List.dedup_cons_of_notMem hmem, List.filter_cons_of_pos (by simpa using hmem)]
      rfl

theorem regrouped [DecidableEq α] (h : Moves group members f f') : f.Regrouped group members f' where
  parent_of_mem := by
    intro x hx
    rw [h.parent?_eq, if_pos hx]
  parent_of_notMem := by
    intro x hx
    rw [h.parent?_eq, if_neg hx]
  children_group := h.children_group
  children_of_ne := fun _ hne => h.children_of_ne hne
  isGroup_iff := h.valid.isGroup_iff

theorem isCollapsed_iff_of_ne (h : Moves group members f f') (hne : x ≠ group) :
    f'.isCollapsed x = true ↔ f.isCollapsed x = true ∧ ∃ child ∈ f.children x, child ∉ members := by
  induction h with
  | done hvalid =>
    refine (and_iff_left_of_imp fun hcollapsed => ?_).symm
    obtain ⟨child, hchild⟩ :=
      List.exists_mem_of_ne_nil _ (hvalid.children_ne_nil_of_collapsed hcollapsed)
    exact ⟨child, hchild, List.not_mem_nil⟩
  | @move member members f _ hvalid _ ih =>
    rw [ih, hvalid.isCollapsed_move_iff, hvalid.children_move_of_ne hne, and_assoc]
    refine and_congr_right fun _ => ?_
    constructor
    · rintro ⟨-, child, hchild, hnot⟩
      obtain ⟨hchild, hother⟩ := List.mem_filter.mp hchild
      exact ⟨child, hchild, List.not_mem_cons_of_ne_of_not_mem (bne_iff_ne.mp hother) hnot⟩
    · rintro ⟨child, hchild, hnot⟩
      obtain ⟨hother, hnot⟩ := List.ne_and_not_mem_of_not_mem_cons hnot
      exact ⟨⟨child, hchild, hother⟩, child, List.mem_filter.mpr ⟨hchild, bne_iff_ne.mpr hother⟩, hnot⟩

/-- The group itself stays collapsed unless the first move takes its only child. After that it has
two children, or is expanded. -/
theorem isCollapsed_group_iff (h : Moves group members f f') : f'.isCollapsed group = true ↔
    f.isCollapsed group = true ∧ f.children group ≠ members.take 1 := by
  induction h with
  | done hvalid => exact (and_iff_left_of_imp hvalid.children_ne_nil_of_collapsed).symm
  | @move member members f _ hvalid _ ih =>
    have hfirst : f.isCollapsed group = true →
        (f.children group ≠ [member] ↔ ∃ child ∈ f.children group, child ≠ member) := by
      intro hcollapsed
      rw [(hvalid.nodup_children group).ne_singleton_iff]
      exact or_iff_right (hvalid.children_ne_nil_of_collapsed hcollapsed)
    rw [ih, hvalid.isCollapsed_move_iff, hvalid.children_move_group, and_assoc]
    refine and_congr_right fun hcollapsed => ?_
    rw [List.take_succ_cons, List.take_zero, hfirst hcollapsed]
    refine and_iff_left_of_imp ?_
    rintro ⟨child, hchild, hother⟩ hshort
    have hleft : child ∈ (f.children group).filter (· != member) :=
      List.mem_filter.mpr ⟨hchild, bne_iff_ne.mpr hother⟩
    have hlength := congrArg List.length hshort
    rw [List.length_append, List.length_take, List.length_singleton] at hlength
    have hpos := List.length_pos_of_mem hleft
    omega

end Moves

/-! ### Every sequence of calls -/

theorem Acyclic.isHidden_of_parent (h : f.Acyclic) (hparent : f.parent? node = some group) :
    f.isHidden node = (f.isCollapsed group || f.isHidden group) := by
  rw [isHidden, h.ancestors_of_some hparent, List.any_cons, isHidden]

namespace Valid

theorem not_liesWithin_of_group (h : f.Valid) (hdone : f.group group members = .ok f')
    (hmem : member ∈ members) : ¬ f.LiesWithin group member := by
  intro hwithin
  obtain ⟨first, hrefused⟩ := h.exists_group_eq_error_iff.mpr ⟨member, hmem, hwithin⟩
  rw [hdone] at hrefused
  cases hrefused

theorem isHidden_group (h : f.Valid) (hdone : f.group group members = .ok f') :
    f'.isHidden group = f.isHidden group := by
  have hmoves := h.moves_of_group hdone
  have hout : ∀ x, x = group ∨ f.IsAbove x group → x ∉ members :=
    fun x hx hmem => h.not_liesWithin_of_group hdone hmem hx
  have hway : f'.ancestors group = f.ancestors group := by
    refine h.acyclic.ancestors_congr hmoves.valid.acyclic fun x hx => ?_
    rw [hmoves.parent?_eq, if_neg (hout x (hx.imp_right h.acyclic.mem_ancestors_iff.mp))]
  have hflag : ∀ above, f.IsAbove above group →
      (f'.isCollapsed above = true ↔ f.isCollapsed above = true) := by
    intro above habove
    have hne : above ≠ group := by
      rintro rfl
      exact h.acyclic.not_isAbove_self above habove
    obtain ⟨child, hchild, hbelow⟩ := Relation.TransGen.head'_iff.mp habove
    rw [Relation.reflTransGen_iff_eq_or_transGen, eq_comm] at hbelow
    rw [hmoves.isCollapsed_iff_of_ne hne]
    exact and_iff_left ⟨child, (h.mem_children_iff above child).mpr hchild, hout child hbelow⟩
  rw [Bool.eq_iff_iff, hmoves.valid.acyclic.isHidden_iff, h.acyclic.isHidden_iff]
  refine exists_congr fun above => ?_
  rw [← hmoves.valid.acyclic.mem_ancestors_iff, hway, h.acyclic.mem_ancestors_iff]
  exact and_congr_right (hflag above)

theorem flagsKept (h : f.Valid) (hdone : f.group group members = .ok f') :
    f.FlagsKept group members f' := by
  have hmoves := h.moves_of_group hdone
  refine ⟨fun x _ hgroup => ?_, fun child hchild => ?_, h.isHidden_group hdone⟩
  · by_cases hx : x = group
    · subst hx
      rw [hmoves.isCollapsed_group_iff, eq_self, true_and]
    · have hkept : ∃ child ∈ f.children x, child ∉ members := by
        rw [hmoves.valid.isGroup_iff, hmoves.children_of_ne hx] at hgroup
        obtain ⟨child, hchild⟩ := List.exists_mem_of_ne_nil _ hgroup
        obtain ⟨hchild, hnot⟩ := List.mem_filter.mp hchild
        exact ⟨child, hchild, by simpa using hnot⟩
      rw [hmoves.isCollapsed_iff_of_ne hx]
      exact and_congr_right fun _ => iff_of_true hkept fun hgone => hx hgone.1
  · have hparent := (hmoves.valid.mem_children_iff group child).mp hchild
    rw [hmoves.valid.acyclic.isHidden_of_parent hparent, Bool.or_eq_true]

theorem groupsExactly [DecidableEq α] (h : f.Valid) (group : α) (members : List α) :
    f.GroupsExactly group members where
  refused_iff := h.exists_group_eq_error_iff
  refused := by
    intro member hrefused
    refine ⟨h.group_eq_error_iff.mp hrefused, ?_⟩
    rw [GroupForest.perform, hrefused]
  done := by
    intro f' hdone
    refine ⟨?_, (h.moves_of_group hdone).regrouped⟩
    rw [GroupForest.perform, hdone]

end Valid

theorem groupsExactly_after [DecidableEq α] (calls : List (Call α)) (group : α) (members : List α) :
    (after calls).GroupsExactly group members :=
  (valid_after calls).groupsExactly group members

theorem groupsExactly_after_nested :
    (after [Call.group 1 [2, 3], .group 2 [4], .collapse 1] : GroupForest Nat).GroupsExactly
      1 [4, 3, 5, 4] :=
  groupsExactly_after _ _ _

/-! ### A group of one -/

def collapsedPair : GroupForest Nat where
  parents := (∅ : Std.HashMap Nat Nat).insert 1 0
  members := (∅ : Std.HashMap Nat (List Nat)).insert 0 [1]
  collapsed := (∅ : Std.HashSet Nat).insert 0

theorem group_of_root (hroot : f.parent? group = none) (hne : member ≠ group) :
    f.group group [member] = .ok (f.move group member) := by
  rw [GroupForest.group, Acyclic.ancestors_of_none hroot, List.find?_cons_of_neg (by simp [hne])]
  rfl

theorem after_collapsedPair : after [Call.group 0 [1], .collapse 0] = collapsedPair := by
  have hgroup : ({} : GroupForest Nat).group 0 [1] = .ok (({} : GroupForest Nat).move 0 1) :=
    group_of_root (by simp [parent?]) (by decide)
  have hmove : ({} : GroupForest Nat).move 0 1 = { collapsedPair with collapsed := ∅ } := by
    simp [move, detach, attach, parent?, children, collapsedPair]
  simp [after, perform, hgroup, hmove, collapse, isGroup, isCollapsed, collapsedPair]

theorem group_collapsedPair : collapsedPair.group 0 [1] = .ok (collapsedPair.move 0 1) :=
  group_of_root (by simp [parent?, collapsedPair]) (by decide)

/-- Whatever calls were made, grouping leaves the flags, except that of a group whose only child comes
first among the members. -/
theorem flagsKept_after (calls : List (Call α)) (hdone : (after calls).group group members = .ok f') :
    (after calls).FlagsKept group members f' :=
  (valid_after calls).flagsKept hdone

theorem flagsKept_collapsedPair :
    (after [Call.group 0 [1], .collapse 0]).group 0 [1] = .ok (collapsedPair.move 0 1) ∧
      (after [Call.group 0 [1], .collapse 0]).FlagsKept 0 [1] (collapsedPair.move 0 1) :=
  have hdone : (after [Call.group 0 [1], .collapse 0]).group 0 [1] = .ok (collapsedPair.move 0 1) :=
    after_collapsedPair ▸ group_collapsedPair
  ⟨hdone, flagsKept_after _ hdone⟩

/-- The group is a group before and after, but it is expanded, and the child that was hidden shows. -/
theorem regroup_expands_collapsedPair :
    after [Call.group 0 [1], .collapse 0] = collapsedPair ∧
    collapsedPair.group 0 [1] = .ok (collapsedPair.move 0 1) ∧
      collapsedPair.isGroup 0 = true ∧ (collapsedPair.move 0 1).isGroup 0 = true ∧
      collapsedPair.isCollapsed 0 = true ∧ (collapsedPair.move 0 1).isCollapsed 0 = false ∧
      collapsedPair.isHidden 1 = true ∧ (collapsedPair.move 0 1).isHidden 1 = false := by
  have hvalid : collapsedPair.Valid := after_collapsedPair ▸ valid_after _
  have hmoves := hvalid.moves_of_group group_collapsedPair
  have hcollapsed : collapsedPair.isCollapsed 0 = true := by simp [isCollapsed, collapsedPair]
  have hexpanded : (collapsedPair.move 0 1).isCollapsed 0 = false := by
    rw [Bool.eq_false_iff, Ne, hmoves.isCollapsed_group_iff]
    simp [children, collapsedPair]
  have hshown : collapsedPair.isHidden 0 = false := by
    rw [isHidden, Acyclic.ancestors_of_none (by simp [parent?, collapsedPair]), List.any_nil]
  have hchild : collapsedPair.parent? 1 = some 0 := by simp [parent?, collapsedPair]
  have hchild' : (collapsedPair.move 0 1).parent? 1 = some 0 := by rw [parent?_move]; rfl
  refine ⟨after_collapsedPair, group_collapsedPair, by simp [isGroup, collapsedPair], by simp [move, isGroup_attach],
    hcollapsed, hexpanded, ?_, ?_⟩
  · rw [hvalid.acyclic.isHidden_of_parent hchild, hcollapsed, Bool.true_or]
  · rw [hmoves.valid.acyclic.isHidden_of_parent hchild', hexpanded, Bool.false_or,
      hvalid.isHidden_group group_collapsedPair, hshown]

end PropertyGraph.GroupForest

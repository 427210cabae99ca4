import PropertyGraph.Proofs.Groups.Lineage

/-!
# Who stands for whom

A node that is hidden is stood in for by its outermost collapsed ancestor, which is found by going up;
what a collapsed node stands for is found by going down. The two agree, so the nodes that are not hidden
share out all nodes among them. That no node is claimed twice comes down to the collapsed ancestors of a
node lying one above the other: only the outermost of them is not hidden itself.
-/

namespace PropertyGraph.GroupForest

variable {α : Type} [BEq α] [Hashable α] {f : GroupForest α} {node x y : α}

/-- Every node is stood in for by one node that is not hidden, which has it once among those that it
stands for. -/
structure StandInPartition (f : GroupForest α) : Prop where
  isHidden_standIn : ∀ node, f.isHidden (f.standIn node) = false
  standIn_eq_self_iff : ∀ node, f.standIn node = node ↔ f.isHidden node = false
  standIn_standIn : ∀ node, f.standIn (f.standIn node) = f.standIn node
  mem_represented_iff : ∀ node x, f.isHidden x = false →
    (node ∈ f.represented x ↔ f.standIn node = x)
  count_represented : ∀ node x, f.isHidden x = false → node ∈ f.represented x →
    (f.represented x).count node = 1
  existsUnique : ∀ node, ∃! x, f.isHidden x = false ∧ node ∈ f.represented x

variable [LawfulBEq α]

namespace Acyclic

omit [LawfulBEq α] in
theorem isAbove_total (h : f.Acyclic) (hx : f.IsAbove x node) (hy : f.IsAbove y node) :
    x = y ∨ f.IsAbove x y ∨ f.IsAbove y x := by
  induction node using h.induction with
  | root node hroot =>
    obtain ⟨parent, hparent, _⟩ := isAbove_iff.mp hx
    rw [hroot] at hparent
    cases hparent
  | step node parent hparent ih =>
    obtain ⟨next, hnext, hx⟩ := isAbove_iff.mp hx
    obtain ⟨next', hnext', hy⟩ := isAbove_iff.mp hy
    rw [hparent, Option.some.injEq] at hnext hnext'
    subst hnext hnext'
    rcases hx with rfl | hx
    · exact hy.imp_right .inr
    · rcases hy with rfl | hy
      · exact .inr (.inl hx)
      · exact ih hx hy

theorem isHidden_standIn (h : f.Acyclic) (node : α) : f.isHidden (f.standIn node) = false := by
  rcases h.standIn_cases node with ⟨hshown, hself⟩ | ⟨_, _, _, hshown⟩
  · rw [hself, hshown]
  · exact hshown

theorem standIn_eq_self_iff (h : f.Acyclic) : f.standIn node = node ↔ f.isHidden node = false := by
  constructor
  · intro hself
    rw [← hself, h.isHidden_standIn]
  · intro hshown
    rcases h.standIn_cases node with ⟨_, hself⟩ | ⟨hhidden, _⟩
    · exact hself
    · rw [hshown] at hhidden
      cases hhidden

theorem standIn_eq_of_isAbove (h : f.Acyclic) (habove : f.IsAbove x node)
    (hcollapsed : f.isCollapsed x = true) (hshown : f.isHidden x = false) : f.standIn node = x := by
  have hnone : ∀ {y z : α}, f.isHidden z = false → f.IsAbove y z → ¬ f.isCollapsed y = true :=
    fun hz hy hcollapsed => Bool.eq_false_iff.mp hz (h.isHidden_iff.mpr ⟨_, hy, hcollapsed⟩)
  rcases h.standIn_cases node with ⟨hnode, _⟩ | ⟨_, habove', hcollapsed', hshown'⟩
  · exact absurd hcollapsed (hnone hnode habove)
  · rcases h.isAbove_total habove' habove with heq | hbelow | hbelow
    · exact heq
    · exact absurd hcollapsed' (hnone hshown hbelow)
    · exact absurd hcollapsed (hnone hshown' hbelow)

end Acyclic

namespace Valid

theorem mem_represented (h : f.Valid) :
    node ∈ f.represented x ↔ node = x ∨ f.isCollapsed x = true ∧ f.IsAbove x node := by
  rw [represented, List.mem_cons]
  split
  · next hcollapsed => rw [h.mem_descendants_iff, hcollapsed, eq_self, true_and]
  · next hexpanded => simp [hexpanded]

/-- Going down from a node that is not hidden finds exactly the nodes from which going up finds it. -/
theorem mem_represented_iff (h : f.Valid) (hshown : f.isHidden x = false) :
    node ∈ f.represented x ↔ f.standIn node = x := by
  rw [h.mem_represented]
  constructor
  · rintro (rfl | ⟨hcollapsed, habove⟩)
    · exact h.acyclic.standIn_eq_self_iff.mpr hshown
    · exact h.acyclic.standIn_eq_of_isAbove habove hcollapsed hshown
  · rintro rfl
    rcases h.acyclic.standIn_cases node with ⟨_, hself⟩ | ⟨_, habove, hcollapsed, _⟩
    · exact .inl hself.symm
    · exact .inr ⟨hcollapsed, habove⟩

theorem nodup_represented (h : f.Valid) (x : α) : (f.represented x).Nodup := by
  rw [represented, List.nodup_cons]
  split
  · refine ⟨fun hmem => ?_, h.nodup_descendants x⟩
    exact h.acyclic.not_isAbove_self x (h.mem_descendants_iff.mp hmem)
  · exact ⟨List.not_mem_nil, List.nodup_nil⟩

theorem standInPartition (h : f.Valid) : f.StandInPartition where
  isHidden_standIn := h.acyclic.isHidden_standIn
  standIn_eq_self_iff := fun _ => h.acyclic.standIn_eq_self_iff
  standIn_standIn := fun node =>
    h.acyclic.standIn_eq_self_iff.mpr (h.acyclic.isHidden_standIn node)
  mem_represented_iff := fun _ _ hshown => h.mem_represented_iff hshown
  count_represented := fun _ x _ hmem => List.count_eq_one_of_mem (h.nodup_represented x) hmem
  existsUnique := by
    intro node
    have hshown := h.acyclic.isHidden_standIn node
    refine ⟨f.standIn node, ⟨hshown, (h.mem_represented_iff hshown).mpr rfl⟩, ?_⟩
    rintro x ⟨hshown', hmem⟩
    exact ((h.mem_represented_iff hshown').mp hmem).symm

end Valid

theorem standInPartition_after (calls : List (Call α)) : (after calls).StandInPartition :=
  (valid_after calls).standInPartition

theorem standInPartition_after_nested :
    (after [Call.group 1 [2, 3], .group 2 [4, 5], .collapse 2, .collapse 1] :
      GroupForest Nat).StandInPartition :=
  standInPartition_after _

end PropertyGraph.GroupForest

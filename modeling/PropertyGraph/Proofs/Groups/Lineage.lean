import Mathlib.Logic.Relation
import PropertyGraph.Proofs.Groups.Forest

/-!
# Ancestors and descendants

A climb follows the parents, and a listing of what lies beneath a node works off a stack. Neither is
bounded by anything but the forest itself, so both come to an end only because no sequence of calls
ever puts a node above itself.
-/

namespace PropertyGraph.GroupForest

variable {α : Type} [BEq α] [Hashable α] {f : GroupForest α} {node parent above below x : α}

def IsAbove (f : GroupForest α) : α → α → Prop :=
  Relation.TransGen fun parent child => f.parent? child = some parent

/-- From the node up there are exactly these nodes, and then a root. -/
inductive Ascends (f : GroupForest α) : α → List α → Prop
  | root {node : α} : f.parent? node = none → f.Ascends node []
  | step {node parent : α} {rest : List α} :
      f.parent? node = some parent → f.Ascends parent rest → f.Ascends node (parent :: rest)

/-- Working off the stack gives exactly these nodes: what comes off is listed, and its children are
put on, the last one on top. -/
inductive Visits (f : GroupForest α) : List α → List α → Prop
  | done : f.Visits [] []
  | pop {node : α} {stack listed : List α} :
      f.Visits ((f.children node).reverse ++ stack) listed → f.Visits (node :: stack) (node :: listed)

/-! ### What lies above a node -/

theorem isAbove_iff : f.IsAbove above node ↔
    ∃ parent, f.parent? node = some parent ∧ (parent = above ∨ f.IsAbove above parent) := by
  rw [IsAbove, Relation.TransGen.tail'_iff]
  refine exists_congr fun parent => ?_
  rw [Relation.reflTransGen_iff_eq_or_transGen, and_comm]

theorem mem_climb_succ_iff {steps : Nat} : above ∈ f.climb (steps + 1) node ↔
    ∃ child, (child = node ∨ child ∈ f.climb steps node) ∧ f.parent? child = some above := by
  induction steps generalizing node with
  | zero =>
    rw [climb]
    cases hparent : f.parent? node with
    | none => simp [climb, hparent]
    | some parent => simp [climb, hparent, eq_comm]
  | succ steps ih =>
    rw [climb]
    cases hparent : f.parent? node with
    | none => simp [climb, hparent]
    | some parent =>
      rw [List.mem_cons, ih, climb, hparent]
      constructor
      · rintro (rfl | ⟨child, hchild, habove⟩)
        · exact ⟨node, .inl rfl, hparent⟩
        · exact ⟨child, .inr (List.mem_cons.mpr hchild), habove⟩
      · rintro ⟨child, rfl | hchild, habove⟩
        · exact .inl (Option.some.inj (habove.symm.trans hparent))
        · exact .inr ⟨child, List.mem_cons.mp hchild, habove⟩

theorem isAbove_of_mem_climb {steps : Nat} (hmem : above ∈ f.climb steps node) :
    f.IsAbove above node := by
  induction steps generalizing above with
  | zero => cases hmem
  | succ steps ih =>
    obtain ⟨child, hchild, habove⟩ := mem_climb_succ_iff.mp hmem
    rcases hchild with rfl | hchild
    · exact .single habove
    · exact (ih hchild).head habove

namespace Acyclic

theorem not_isAbove_self (h : f.Acyclic) (node : α) : ¬ f.IsAbove node node := by
  obtain ⟨rank, hrank⟩ := h
  have hlt : ∀ below, f.IsAbove node below → rank node < rank below := by
    intro below habove
    induction habove with
    | single hparent => exact hrank _ _ hparent
    | tail _ hparent ih => exact ih.trans (hrank _ _ hparent)
  exact fun habove => lt_irrefl _ (hlt node habove)

variable [LawfulBEq α]

theorem ascends (h : f.Acyclic) (node : α) : f.Ascends node (f.ancestors node) := by
  induction node using h.induction with
  | root node hroot =>
    rw [ancestors_of_none hroot]
    exact .root hroot
  | step node parent hparent ih =>
    rw [h.ancestors_of_some hparent]
    exact .step hparent ih

theorem mem_ancestors_iff (h : f.Acyclic) : above ∈ f.ancestors node ↔ f.IsAbove above node := by
  induction node using h.induction with
  | root node hroot =>
    rw [ancestors_of_none hroot, isAbove_iff, hroot]
    simp
  | step node parent hparent ih =>
    calc above ∈ f.ancestors node
        ↔ above = parent ∨ f.IsAbove above parent := by
          rw [h.ancestors_of_some hparent, List.mem_cons, ih]
      _ ↔ ∃ next, f.parent? node = some next ∧ (next = above ∨ f.IsAbove above next) := by
          simp [hparent, eq_comm]
      _ ↔ f.IsAbove above node := isAbove_iff.symm

theorem suffix_of_mem_ancestors (h : f.Acyclic) (hmem : x ∈ f.ancestors node) :
    x :: f.ancestors x <:+ f.ancestors node := by
  induction node using h.induction with
  | root node hroot =>
    rw [ancestors_of_none hroot] at hmem
    cases hmem
  | step node parent hparent ih =>
    rw [h.ancestors_of_some hparent] at hmem ⊢
    rcases List.mem_cons.mp hmem with rfl | hmem
    · exact List.suffix_rfl
    · exact (ih hmem).trans (List.suffix_cons _ _)

theorem isHidden_iff (h : f.Acyclic) :
    f.isHidden node = true ↔ ∃ above, f.IsAbove above node ∧ f.isCollapsed above = true := by
  rw [isHidden, List.any_eq_true]
  exact exists_congr fun above => and_congr_left fun _ => h.mem_ancestors_iff

/-- A node that is not hidden stands for itself. For a hidden one stands the node above it that is
collapsed and not hidden. -/
theorem standIn_cases (h : f.Acyclic) (node : α) :
    (f.isHidden node = false ∧ f.standIn node = node) ∨
      (f.isHidden node = true ∧ f.IsAbove (f.standIn node) node ∧
        f.isCollapsed (f.standIn node) = true ∧ f.isHidden (f.standIn node) = false) := by
  rw [standIn, List.getLastD_eq_getLast?]
  cases hlast : ((f.ancestors node).filter f.isCollapsed).getLast? with
  | none =>
    rw [List.getLast?_eq_none_iff, List.filter_eq_nil_iff] at hlast
    exact .inl ⟨List.any_eq_false.mpr hlast, rfl⟩
  | some x =>
    obtain ⟨hmem, hcollapsed⟩ := List.mem_filter.mp (List.mem_of_getLast? hlast)
    have habove := h.mem_ancestors_iff.mp hmem
    refine .inr ⟨h.isHidden_iff.mpr ⟨x, habove, hcollapsed⟩, habove, hcollapsed, ?_⟩
    -- Something collapsed above the last one would come after it, and be the last one instead.
    obtain ⟨front, hfront⟩ := h.suffix_of_mem_ancestors hmem
    rw [← hfront, List.filter_append, List.filter_cons_of_pos hcollapsed, List.getLast?_append,
      List.getLast?_cons] at hlast
    rw [Option.some_or, Option.some.injEq] at hlast
    cases hrest : ((f.ancestors x).filter f.isCollapsed).getLast? with
    | none =>
      rw [List.getLast?_eq_none_iff, List.filter_eq_nil_iff] at hrest
      exact List.any_eq_false.mpr hrest
    | some y =>
      rw [hrest, Option.getD_some] at hlast
      have hy := (List.mem_filter.mp (List.mem_of_getLast? hrest)).1
      exact absurd (h.mem_ancestors_iff.mp (hlast ▸ hy)) (h.not_isAbove_self x)

end Acyclic

/-! ### What lies beneath a node -/

namespace Valid

variable [LawfulBEq α]

omit [LawfulBEq α] in
/-- A node is found by going down exactly if the start is found by going up. -/
theorem mem_descend_iff (h : f.Valid) {levels : Nat} :
    below ∈ f.descend levels node ↔ node ∈ f.climb levels below := by
  induction levels generalizing node with
  | zero => simp [descend, climb]
  | succ levels ih =>
    rw [mem_climb_succ_iff, descend, List.mem_flatMap]
    refine exists_congr fun child => ?_
    rw [List.mem_reverse, h.mem_children_iff, List.mem_cons, ih, and_comm, eq_comm]

theorem mem_descendants_iff (h : f.Valid) : below ∈ f.descendants node ↔ f.IsAbove node below := by
  rw [descendants, h.mem_descend_iff, ← ancestors, h.acyclic.mem_ancestors_iff]

theorem length_ancestors_of_mem_children (h : f.Valid) (hmem : x ∈ f.children node) :
    (f.ancestors x).length = (f.ancestors node).length + 1 := by
  rw [h.acyclic.ancestors_of_some ((h.mem_children_iff node x).mp hmem), List.length_cons]

theorem descend_succ (h : f.Valid) {levels : Nat}
    (hdeep : f.parents.size ≤ levels + (f.ancestors node).length) :
    f.descend (levels + 1) node = f.descend levels node := by
  induction levels generalizing node with
  | zero =>
    have hleaf : f.children node = [] := by
      refine List.eq_nil_iff_forall_not_mem.mpr fun x hx => ?_
      obtain ⟨rank, hrank⟩ := h.acyclic
      have hlength := h.length_ancestors_of_mem_children hx
      have hle : (f.ancestors x).length ≤ f.parents.size := length_climb_le hrank _ x
      omega
    simp [descend, hleaf]
  | succ levels ih =>
    rw [descend, descend]
    refine List.flatMap_congr fun child hchild => ?_
    have hlength := h.length_ancestors_of_mem_children (List.mem_reverse.mp hchild)
    rw [ih (by omega)]

theorem descendants_eq (h : f.Valid) (node : α) :
    f.descendants node =
      (f.children node).reverse.flatMap fun child => child :: f.descendants child := by
  rw [descendants, ← h.descend_succ (Nat.le_add_right _ _), descend]
  rfl

theorem visits (h : f.Valid) (stack : List α) :
    f.Visits stack (stack.flatMap fun node => node :: f.descendants node) := by
  -- By induction on what is listed, which gets shorter with every node, unlike the stack.
  induction hlisted : stack.flatMap (fun node => node :: f.descendants node) generalizing stack with
  | nil =>
    cases stack with
    | nil => exact .done
    | cons node stack => cases hlisted
  | cons first listed ih =>
    cases stack with
    | nil => cases hlisted
    | cons node stack =>
      rw [List.flatMap_cons, List.cons_append, List.cons.injEq] at hlisted
      obtain ⟨rfl, hrest⟩ := hlisted
      refine .pop (ih _ ?_)
      rw [List.flatMap_append, ← h.descendants_eq, hrest]

theorem nodup_descend (h : f.Valid) (levels : Nat) (node : α) : (f.descend levels node).Nodup := by
  induction levels generalizing node with
  | zero => exact List.nodup_nil
  | succ levels ih =>
    rw [descend, List.nodup_flatMap]
    constructor
    · intro child _
      refine List.nodup_cons.mpr ⟨fun hmem => ?_, ih child⟩
      exact h.acyclic.not_isAbove_self child (isAbove_of_mem_climb (h.mem_descend_iff.mp hmem))
    · refine (List.nodup_reverse.mpr (h.nodup_children node)).imp_of_mem fun {c d} hc hd hne => ?_
      -- What lies beneath two children has both of them on its way up, at the same height.
      have hway : ∀ c x, x ∈ c :: f.descend levels c → c :: f.ancestors c <:+ x :: f.ancestors x := by
        intro c x hx
        rcases List.mem_cons.mp hx with rfl | hx
        · exact List.suffix_rfl
        · have habove := isAbove_of_mem_climb (h.mem_descend_iff.mp hx)
          exact (h.acyclic.suffix_of_mem_ancestors (h.acyclic.mem_ancestors_iff.mpr habove)).trans
            (List.suffix_cons _ _)
      have hlengthc := h.length_ancestors_of_mem_children (List.mem_reverse.mp hc)
      have hlengthd := h.length_ancestors_of_mem_children (List.mem_reverse.mp hd)
      have hlength : (c :: f.ancestors c).length = (d :: f.ancestors d).length := by
        rw [List.length_cons, List.length_cons, hlengthc, hlengthd]
      intro x hxc hxd
      have hsame :=
        (List.suffix_of_suffix_length_le (hway c x hxc) (hway d x hxd) hlength.le).eq_of_length
        hlength
      exact hne (List.cons.inj hsame).1

theorem nodup_descendants (h : f.Valid) (node : α) : (f.descendants node).Nodup :=
  h.nodup_descend _ node

end Valid

/-! ### Every sequence of calls -/

inductive Call (α : Type) where
  | group (group : α) (members : List α)
  | ungroup (group : α)
  | collapse (group : α)
  | expand (group : α)
  | remove (node : α)
  | clear

def perform (f : GroupForest α) : Call α → GroupForest α
  | .group group members =>
    match f.group group members with
    | .ok f' => f'
    | .error _ => f
  | .ungroup group => (f.ungroup group).2
  | .collapse group => (f.collapse group).2
  | .expand group => (f.expand group).2
  | .remove node => f.remove node
  | .clear => f.clear

def after (calls : List (Call α)) : GroupForest α := calls.foldl perform {}

/-- Parents and children agree, groups have children and only they are collapsed, every way up comes
to a root, and every way down to an end. -/
structure Treelike (f : GroupForest α) : Prop where
  count_children : ∀ parent node,
    (f.children parent).count node = if f.parent? node == some parent then 1 else 0
  children_ne_nil : ∀ node, f.isGroup node = true → f.children node ≠ []
  isGroup_of_isCollapsed : ∀ node, f.isCollapsed node = true → f.isGroup node = true
  ascends : ∀ node, f.Ascends node (f.ancestors node)
  not_isAbove_self : ∀ node, ¬ f.IsAbove node node
  mem_ancestors_iff : ∀ above node, above ∈ f.ancestors node ↔ f.IsAbove above node
  isHidden_iff : ∀ node,
    f.isHidden node = true ↔ ∃ above, f.IsAbove above node ∧ f.isCollapsed above = true
  standIn_cases : ∀ node,
    (f.isHidden node = false ∧ f.standIn node = node) ∨
      (f.isHidden node = true ∧ f.IsAbove (f.standIn node) node ∧
        f.isCollapsed (f.standIn node) = true ∧ f.isHidden (f.standIn node) = false)
  visits : ∀ node, f.Visits (f.children node).reverse (f.descendants node)
  nodup_descendants : ∀ node, (f.descendants node).Nodup
  mem_descendants_iff : ∀ node below, below ∈ f.descendants node ↔ f.IsAbove node below

variable [LawfulBEq α]

theorem Valid.perform (h : f.Valid) (call : Call α) : (f.perform call).Valid := by
  cases call with
  | group group members =>
    rw [GroupForest.perform]
    cases hgroup : f.group group members with
    | error member => exact h
    | ok f' => exact (h.of_group hgroup).1
  | ungroup group => exact h.ungroup group
  | collapse group => exact (h.collapse group).1
  | expand group => exact (h.expand group).1
  | remove node => exact h.remove node
  | clear => exact valid_empty

theorem Valid.foldl_perform (h : f.Valid) (calls : List (Call α)) :
    (calls.foldl GroupForest.perform f).Valid := by
  induction calls generalizing f with
  | nil => exact h
  | cons call calls ih => exact ih (h.perform call)

theorem valid_after (calls : List (Call α)) : (after calls).Valid := valid_empty.foldl_perform calls

theorem Valid.treelike (h : f.Valid) : f.Treelike where
  count_children := by
    intro parent node
    by_cases hmem : node ∈ f.children parent
    · rw [List.count_eq_one_of_mem (h.nodup_children parent) hmem, (h.mem_children_iff _ _).mp hmem]
      simp
    · rw [List.count_eq_zero_of_not_mem hmem]
      rw [h.mem_children_iff] at hmem
      simp [hmem]
  children_ne_nil := fun node => (h.isGroup_iff node).mp
  isGroup_of_isCollapsed := h.isGroup_of_collapsed
  ascends := h.acyclic.ascends
  not_isAbove_self := h.acyclic.not_isAbove_self
  mem_ancestors_iff := fun _ _ => h.acyclic.mem_ancestors_iff
  isHidden_iff := fun _ => h.acyclic.isHidden_iff
  standIn_cases := h.acyclic.standIn_cases
  visits := by
    intro node
    rw [h.descendants_eq]
    exact h.visits _
  nodup_descendants := h.nodup_descendants
  mem_descendants_iff := fun _ _ => h.mem_descendants_iff

theorem treelike_after (calls : List (Call α)) : (after calls).Treelike :=
  (valid_after calls).treelike

theorem treelike_after_calls :
    (after [Call.group 1 [2, 3, 2], .group 2 [4], .collapse 1, .group 4 [1], .remove 3] :
      GroupForest Nat).Treelike :=
  treelike_after _

end PropertyGraph.GroupForest

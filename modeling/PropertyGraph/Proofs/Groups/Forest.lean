import Mathlib.Data.List.TakeWhile
import Mathlib.Tactic
import PropertyGraph.GroupForest

/-!
# Forests of groups

A forest is valid if its two directions agree, a group has children, only groups are collapsed, and
no node lies above itself. The last is witnessed by a rank that falls towards the roots; a node that
is put into a group takes all that is beneath it along to a rank above that of the group. In a valid
forest the climb from a node to its root is never cut short, so the ancestors of a node are its
parent and the ancestors of that.
-/

namespace PropertyGraph.GroupForest

variable {α : Type} [BEq α] [LawfulBEq α] [Hashable α] {f f' : GroupForest α}
  {node parent group above child x : α}

/-! ### Ancestors -/

theorem exists_keys_climb {rank : α → Nat}
    (hrank : ∀ node parent, f.parent? node = some parent → rank parent < rank node) (steps : Nat)
    (node : α) : ∃ keys : List α, keys.length = (f.climb steps node).length ∧ keys.Nodup ∧
      ∀ x ∈ keys, x ∈ f.parents ∧ rank x ≤ rank node := by
  induction steps generalizing node with
  | zero => exact ⟨[], rfl, List.nodup_nil, by simp⟩
  | succ steps ih =>
    rw [climb]
    cases hparent : f.parent? node with
    | none => exact ⟨[], rfl, List.nodup_nil, by simp⟩
    | some parent =>
      obtain ⟨keys, hlength, hnodup, hkeys⟩ := ih parent
      have hlt := hrank node parent hparent
      refine ⟨node :: keys, congrArg (· + 1) hlength, List.nodup_cons.mpr ⟨fun hmem => ?_, hnodup⟩, ?_⟩
      · have hle := (hkeys node hmem).2
        omega
      · intro x hx
        rcases List.mem_cons.mp hx with rfl | hx
        · exact ⟨Std.HashMap.mem_iff_isSome_getElem?.mpr (by rw [← parent?, hparent]; rfl), le_rfl⟩
        · exact ⟨(hkeys x hx).1, (hkeys x hx).2.trans hlt.le⟩

theorem length_climb_le {rank : α → Nat}
    (hrank : ∀ node parent, f.parent? node = some parent → rank parent < rank node) (steps : Nat)
    (node : α) : (f.climb steps node).length ≤ f.parents.size := by
  obtain ⟨keys, hlength, hnodup, hkeys⟩ := exists_keys_climb hrank steps node
  rw [← hlength, ← Std.HashMap.length_keys]
  exact (hnodup.subperm fun x hx => Std.HashMap.mem_keys.mpr (hkeys x hx).1).length_le

omit [LawfulBEq α] in
theorem climb_prefix_succ (steps : Nat) (node : α) :
    f.climb steps node <+: f.climb (steps + 1) node := by
  induction steps generalizing node with
  | zero => exact List.nil_prefix
  | succ steps ih =>
    rw [climb, climb]
    cases f.parent? node with
    | none => exact List.prefix_rfl
    | some parent => exact (List.prefix_cons_inj parent).mpr (ih parent)

omit [LawfulBEq α] in
theorem climb_succ_of_length_lt {steps : Nat} (h : (f.climb steps node).length < steps) :
    f.climb (steps + 1) node = f.climb steps node := by
  induction steps generalizing node with
  | zero => cases h
  | succ steps ih =>
    rw [climb] at h
    rw [climb, climb]
    cases hparent : f.parent? node with
    | none => rfl
    | some parent =>
      rw [hparent] at h
      exact congrArg _ (ih (Nat.lt_of_succ_lt_succ h))

theorem climb_succ_parents_size {rank : α → Nat}
    (hrank : ∀ node parent, f.parent? node = some parent → rank parent < rank node) (node : α) :
    f.climb (f.parents.size + 1) node = f.climb f.parents.size node := by
  by_cases hlt : (f.climb f.parents.size node).length < f.parents.size
  · exact climb_succ_of_length_lt hlt
  · refine ((climb_prefix_succ _ node).eq_of_length_le ?_).symm
    exact (length_climb_le hrank _ node).trans (Nat.le_of_not_lt hlt)

/-- No node lies above itself. -/
def Acyclic (f : GroupForest α) : Prop :=
  ∃ rank : α → Nat, ∀ node parent, f.parent? node = some parent → rank parent < rank node

namespace Acyclic

omit [LawfulBEq α] in
theorem ancestors_of_none (hroot : f.parent? node = none) : f.ancestors node = [] := by
  rw [ancestors]
  cases f.parents.size with
  | zero => rfl
  | succ steps => rw [climb, hroot]

theorem ancestors_of_some (h : f.Acyclic) (hparent : f.parent? node = some parent) :
    f.ancestors node = parent :: f.ancestors parent := by
  obtain ⟨rank, hrank⟩ := h
  rw [ancestors, ← climb_succ_parents_size hrank, climb, hparent, ancestors]

omit [LawfulBEq α] in
theorem induction (h : f.Acyclic) {P : α → Prop}
    (root : ∀ node, f.parent? node = none → P node)
    (step : ∀ node parent, f.parent? node = some parent → P parent → P node) (node : α) : P node := by
  obtain ⟨rank, hrank⟩ := h
  induction hn : rank node using Nat.strong_induction_on generalizing node with
  | _ n ih =>
    cases hparent : f.parent? node with
    | none => exact root node hparent
    | some parent => exact step node parent hparent (ih _ (hn ▸ hrank node parent hparent) parent rfl)

omit [LawfulBEq α] in
theorem ne_of_parent (h : f.Acyclic) (hparent : f.parent? node = some parent) : parent ≠ node := by
  rintro rfl
  obtain ⟨rank, hrank⟩ := h
  exact Nat.lt_irrefl _ (hrank _ _ hparent)

omit [LawfulBEq α] in
theorem of_le (h : f.Acyclic)
    (hle : ∀ node parent, f'.parent? node = some parent → f.parent? node = some parent) :
    f'.Acyclic := by
  obtain ⟨rank, hrank⟩ := h
  exact ⟨rank, fun node parent hparent => hrank node parent (hle node parent hparent)⟩

theorem ancestors_congr (h : f.Acyclic) (h' : f'.Acyclic)
    (hsame : ∀ x, x = node ∨ x ∈ f.ancestors node → f'.parent? x = f.parent? x) :
    f'.ancestors node = f.ancestors node := by
  induction node using h.induction with
  | root node hroot =>
    rw [ancestors_of_none hroot, ancestors_of_none ((hsame node (.inl rfl)).trans hroot)]
  | step node parent hparent ih =>
    have hrest := h.ancestors_of_some hparent
    rw [hrest, h'.ancestors_of_some ((hsame node (.inl rfl)).trans hparent), ih fun x hx => ?_]
    refine hsame x (.inr ?_)
    rw [hrest, List.mem_cons]
    exact hx

theorem insert (h : f.Acyclic) (hne : node ≠ group) (hnot : node ∉ f.ancestors group)
    (hparent : ∀ x, f'.parent? x = if x == node then some group else f.parent? x)  :
    f'.Acyclic := by
  obtain ⟨rank, hrank⟩ := id h
  classical
  refine ⟨fun x => if x = node ∨ node ∈ f.ancestors x then rank x + rank group + 1 else rank x,
    fun x parent hx => ?_⟩
  rw [hparent] at hx
  by_cases hxnode : x = node
  · rw [hxnode, beq_self_eq_true, if_pos rfl, Option.some.injEq] at hx
    subst hx
    simp only [if_neg (not_or.mpr ⟨Ne.symm hne, hnot⟩), if_pos (Or.inl hxnode)]
    omega
  · rw [beq_false_of_ne hxnode, if_neg Bool.false_ne_true] at hx
    have hlt := hrank x parent hx
    have hbeneath : (x = node ∨ node ∈ f.ancestors x) ↔ parent = node ∨ node ∈ f.ancestors parent := by
      rw [h.ancestors_of_some hx, List.mem_cons, eq_comm (a := node)]
      exact or_iff_right hxnode
    simp only [hbeneath]
    split <;> omega

end Acyclic

/-! ### What the operations do to parents and children -/

section Edits

theorem parent?_detach : (f.detach node).parent? x = if x == node then none else f.parent? x := by
  rw [detach]
  cases hparent : f.parent? node with
  | none =>
    by_cases heq : x = node
    · rw [heq, beq_self_eq_true, if_pos rfl, hparent]
    · rw [beq_false_of_ne heq, if_neg Bool.false_ne_true]
  | some group =>
    have herase : (f.parents.erase node)[x]? = if x == node then none else f.parent? x := by
      rw [Std.HashMap.getElem?_erase, BEq.comm]
      rfl
    simp only
    split <;> exact herase

theorem children_insert {children : List α} :
    ({ f with members := f.members.insert group children } : GroupForest α).children x =
      if x == group then children else f.children x := by
  rw [GroupForest.children, Std.HashMap.getD_insert, BEq.comm]
  rfl

theorem children_detach (hparent : f.parent? node = some group) :
    (f.detach node).children x =
      if x == group then (f.children group).filter (· != node) else f.children x := by
  rw [detach, hparent]
  simp only
  split
  · next hempty =>
    rw [List.isEmpty_iff.mp hempty]
    change (f.members.erase group).getD x [] = _
    rw [Std.HashMap.getD_erase, BEq.comm]
    rfl
  · exact children_insert

theorem isCollapsed_detach (hparent : f.parent? node = some group) :
    (f.detach node).isCollapsed x =
      (f.isCollapsed x && !(x == group && ((f.children group).filter (· != node)).isEmpty)) := by
  rw [detach, hparent]
  simp only
  split
  · next hempty =>
    change (f.collapsed.erase group).contains x = _
    rw [Std.HashSet.contains_erase, hempty, Bool.and_true, BEq.comm, Bool.and_comm]
    rfl
  · next hempty =>
    rw [Bool.not_eq_true] at hempty
    rw [hempty, Bool.and_false, Bool.not_false, Bool.and_true]
    rfl

theorem isGroup_detach (hparent : f.parent? node = some group) :
    (f.detach node).isGroup x =
      if x == group then !((f.children group).filter (· != node)).isEmpty else f.isGroup x := by
  rw [detach, hparent]
  simp only
  split
  · next hempty =>
    change (f.members.erase group).contains x = _
    rw [Std.HashMap.contains_erase, hempty, BEq.comm]
    by_cases heq : x = group
    · simp [heq]
    · rw [beq_false_of_ne heq]
      rfl
  · next hempty =>
    rw [Bool.not_eq_true] at hempty
    change (f.members.insert group _).contains x = _
    rw [Std.HashMap.contains_insert, hempty, BEq.comm]
    by_cases heq : x = group
    · simp [heq]
    · rw [beq_false_of_ne heq]
      rfl

theorem parent?_attach :
    (f.attach group node).parent? x = if x == node then some group else f.parent? x := by
  change (f.parents.insert node group)[x]? = _
  rw [Std.HashMap.getElem?_insert, BEq.comm]
  rfl

theorem children_attach :
    (f.attach group node).children x =
      if x == group then f.children group ++ [node] else f.children x :=
  children_insert

theorem isGroup_attach : (f.attach group node).isGroup x = (x == group || f.isGroup x) := by
  change (f.members.insert group _).contains x = _
  rw [Std.HashMap.contains_insert, BEq.comm]
  rfl

theorem parent?_move :
    (f.move group node).parent? x = if x == node then some group else f.parent? x := by
  rw [move, parent?_attach, parent?_detach]
  split <;> rfl

theorem getElem?_foldl_erase {children : List α} {parents : Std.HashMap α α} :
    (children.foldl (fun parents child => parents.erase child) parents)[x]? =
      if x ∈ children then none else parents[x]? := by
  induction children generalizing parents with
  | nil => simp
  | cons child children ih =>
    rw [List.foldl_cons, ih, Std.HashMap.getElem?_erase, BEq.comm]
    by_cases hx : x = child <;> simp [hx]

omit [LawfulBEq α] in
theorem foldl_handUp_none {children : List α} : children.foldl (handUp none) f =
    { f with parents := children.foldl (fun parents child => parents.erase child) f.parents } := by
  induction children generalizing f with
  | nil => rfl
  | cons child children ih =>
    rw [List.foldl_cons, ih]
    rfl

theorem foldl_handUp_some {children : List α} :
    (children.foldl (handUp (some above)) f).collapsed = f.collapsed ∧
    (∀ x, (children.foldl (handUp (some above)) f).parent? x =
      if x ∈ children then some above else f.parent? x) ∧
    ∀ x, (children.foldl (handUp (some above)) f).children x =
      if x == above then f.children above ++ children else f.children x := by
  induction children generalizing f with
  | nil =>
    refine ⟨rfl, by simp, fun x => ?_⟩
    split
    · next hx => rw [List.append_nil, beq_iff_eq.mp hx, List.foldl_nil]
    · rfl
  | cons child children ih =>
    obtain ⟨hcollapsed, hparent, hchildren⟩ := ih (f := f.attach above child)
    refine ⟨hcollapsed, fun x => ?_, fun x => ?_⟩
    · rw [List.foldl_cons]
      refine (hparent x).trans ?_
      rw [parent?_attach]
      by_cases hx : x = child
      · simp [hx]
      · simp [hx]
    · rw [List.foldl_cons]
      refine (hchildren x).trans ?_
      rw [children_attach, children_attach, beq_self_eq_true, if_pos rfl, List.append_assoc]
      split <;> rfl

/-! Whether there is a group above or not, what becomes of the children can be said at once. -/

variable {above? : Option α} {handed : List α}

theorem parent?_foldl_handUp :
    (handed.foldl (handUp above?) f).parent? x = if x ∈ handed then above? else f.parent? x := by
  cases above? with
  | none =>
    rw [foldl_handUp_none]
    exact getElem?_foldl_erase
  | some above => exact foldl_handUp_some.2.1 x

theorem children_foldl_handUp : (handed.foldl (handUp above?) f).children x =
    if above? == some x then f.children x ++ handed else f.children x := by
  cases above? with
  | none =>
    rw [foldl_handUp_none]
    rfl
  | some above =>
    rw [foldl_handUp_some.2.2 x]
    by_cases hx : x = above
    · rw [hx, beq_self_eq_true, beq_self_eq_true, if_pos rfl]
    · have hother : (some above == some x) = false := beq_false_of_ne (by simpa using Ne.symm hx)
      rw [beq_false_of_ne hx, hother, if_neg Bool.false_ne_true, if_neg Bool.false_ne_true]

theorem isCollapsed_foldl_handUp :
    (handed.foldl (handUp above?) f).isCollapsed x = f.isCollapsed x := by
  cases above? with
  | none =>
    rw [foldl_handUp_none]
    rfl
  | some above =>
    rw [isCollapsed, foldl_handUp_some.1]
    rfl

theorem isGroup_foldl_handUp (hne : handed ≠ []) :
    (handed.foldl (handUp above?) f).isGroup x = (above? == some x || f.isGroup x) := by
  cases above? with
  | none =>
    rw [foldl_handUp_none]
    rfl
  | some above =>
    induction handed generalizing f with
    | nil => exact absurd rfl hne
    | cons child rest ih =>
      have hattach : (handUp (some above) f child).isGroup x =
          (some above == some x || f.isGroup x) :=
        isGroup_attach.trans (congrArg (· || f.isGroup x) BEq.comm)
      rw [List.foldl_cons]
      cases rest with
      | nil => exact hattach
      | cons next rest =>
        rw [ih (List.cons_ne_nil _ _), hattach, ← Bool.or_assoc, Bool.or_self]

/-- The forest without a group, whose children still have it as their parent. -/
def cut (f : GroupForest α) (node : α) : GroupForest α :=
  { f with members := f.members.erase node, collapsed := f.collapsed.erase node }

theorem children_cut : (f.cut node).children x = if x == node then [] else f.children x := by
  change (f.members.erase node).getD x [] = _
  rw [Std.HashMap.getD_erase, BEq.comm]
  rfl

theorem isGroup_cut : (f.cut node).isGroup x = (!(x == node) && f.isGroup x) := by
  change (f.members.erase node).contains x = _
  rw [Std.HashMap.contains_erase, BEq.comm]
  rfl

theorem isCollapsed_cut : (f.cut node).isCollapsed x = (!(x == node) && f.isCollapsed x) := by
  change (f.collapsed.erase node).contains x = _
  rw [Std.HashSet.contains_erase, BEq.comm]
  rfl

theorem ungroup_of_isGroup (h : f.isGroup node = true) :
    (f.ungroup node).2 = (f.children node).foldl (handUp (f.parent? node)) (f.cut node) := by
  rw [isGroup, Std.HashMap.contains_eq_isSome_getElem?, Option.isSome_iff_exists] at h
  obtain ⟨children, hchildren⟩ := h
  rw [ungroup, GroupForest.children, Std.HashMap.getD_eq_getD_getElem?, hchildren]
  rfl

theorem ungroup_of_not_isGroup (h : f.isGroup node = false) : f.ungroup node = (false, f) := by
  rw [isGroup, Std.HashMap.contains_eq_isSome_getElem?, Option.isSome_eq_false_iff,
    Option.isNone_iff_eq_none] at h
  rw [ungroup, h]

end Edits

/-! ### Valid forests -/

/-- The two directions agree, exactly the nodes with children are groups, only groups are collapsed,
and no node lies above itself. -/
structure Valid (f : GroupForest α) : Prop where
  mem_children_iff : ∀ group node, node ∈ f.children group ↔ f.parent? node = some group
  nodup_children : ∀ group, (f.children group).Nodup
  isGroup_iff : ∀ group, f.isGroup group = true ↔ f.children group ≠ []
  isGroup_of_collapsed : ∀ group, f.isCollapsed group = true → f.isGroup group = true
  acyclic : f.Acyclic

theorem valid_empty : ({} : GroupForest α).Valid where
  mem_children_iff := by simp [children, parent?]
  nodup_children := by simp [children]
  isGroup_iff := by simp [children, isGroup]
  isGroup_of_collapsed := by simp [isCollapsed]
  acyclic := ⟨fun _ => 0, by simp [parent?]⟩

/-- The members are moved into the group one after the other, each out of a valid forest. -/
inductive Moves (group : α) : List α → GroupForest α → GroupForest α → Prop
  | done {f : GroupForest α} : f.Valid → Moves group [] f f
  | move {member : α} {members : List α} {f f' : GroupForest α} :
      f.Valid → Moves group members (f.move group member) f' → Moves group (member :: members) f f'

namespace Moves

variable {members : List α}

omit [LawfulBEq α] in
theorem valid (h : Moves group members f f') : f'.Valid := by
  induction h with
  | done hvalid => exact hvalid
  | move _ _ ih => exact ih

theorem parent?_eq (h : Moves group members f f') :
    f'.parent? x = if x ∈ members then some group else f.parent? x := by
  induction h with
  | done _ => simp
  | @move member _ _ _ _ _ ih =>
    rw [ih, parent?_move]
    by_cases hx : x = member
    · simp [hx]
    · rw [beq_false_of_ne hx, if_neg Bool.false_ne_true]
      simp [hx]

end Moves

namespace Valid

theorem detach (h : f.Valid) (node : α) : (f.detach node).Valid := by
  cases hparent : f.parent? node with
  | none =>
    rw [GroupForest.detach, hparent]
    exact h
  | some group =>
    constructor
    case mem_children_iff =>
      intro x y
      rw [children_detach hparent, parent?_detach]
      by_cases hy : y = node
      · rw [hy, beq_self_eq_true, if_pos rfl]
        split
        · simp
        · next hx =>
          rw [h.mem_children_iff, hparent]
          simp only [beq_iff_eq] at hx
          simp [Ne.symm hx]
      · rw [beq_false_of_ne hy, if_neg Bool.false_ne_true, ← h.mem_children_iff]
        split
        · next hx =>
          rw [beq_iff_eq] at hx
          simp [hx, hy]
        · rfl
    case nodup_children =>
      intro x
      rw [children_detach hparent]
      split
      · exact (h.nodup_children group).filter _
      · exact h.nodup_children x
    case isGroup_iff =>
      intro x
      rw [isGroup_detach hparent, children_detach hparent]
      split
      · simp
      · exact h.isGroup_iff x
    case isGroup_of_collapsed =>
      intro x hx
      rw [isCollapsed_detach hparent, Bool.and_eq_true] at hx
      rw [isGroup_detach hparent]
      split
      · next heq =>
        rw [heq, Bool.true_and] at hx
        exact hx.2
      · exact h.isGroup_of_collapsed x hx.1
    case acyclic =>
      refine h.acyclic.of_le fun x y hx => ?_
      rw [parent?_detach] at hx
      split at hx
      · cases hx
      · exact hx

theorem children_detach_eq (h : f.Valid) :
    (f.detach node).children x = (f.children x).filter (· != node) := by
  have hkept : f.parent? node ≠ some x → (f.children x).filter (· != node) = f.children x := by
    intro hother
    refine List.filter_eq_self.mpr fun child hchild => bne_iff_ne.mpr ?_
    rintro rfl
    exact hother ((h.mem_children_iff x child).mp hchild)
  cases hparent : f.parent? node with
  | none =>
    rw [GroupForest.detach, hparent]
    exact (hkept (by simp [hparent])).symm
  | some above =>
    rw [children_detach hparent]
    by_cases hx : x = above
    · rw [hx, beq_self_eq_true, if_pos rfl]
    · rw [beq_false_of_ne hx, if_neg Bool.false_ne_true, hkept]
      rw [hparent, Ne, Option.some.injEq]
      exact Ne.symm hx

omit [LawfulBEq α] in
theorem children_ne_nil_of_collapsed (h : f.Valid) (hcollapsed : f.isCollapsed x = true) :
    f.children x ≠ [] :=
  (h.isGroup_iff x).mp (h.isGroup_of_collapsed x hcollapsed)

theorem isCollapsed_detach_iff (h : f.Valid) : (f.detach node).isCollapsed x = true ↔
    f.isCollapsed x = true ∧ ∃ child ∈ f.children x, child ≠ node := by
  have hother : f.parent? node ≠ some x → f.isCollapsed x = true →
      ∃ child ∈ f.children x, child ≠ node := by
    intro hparent hcollapsed
    obtain ⟨child, hchild⟩ := List.exists_mem_of_ne_nil _ (h.children_ne_nil_of_collapsed hcollapsed)
    refine ⟨child, hchild, ?_⟩
    rintro rfl
    exact hparent ((h.mem_children_iff x child).mp hchild)
  cases hparent : f.parent? node with
  | none =>
    rw [GroupForest.detach, hparent]
    exact (and_iff_left_of_imp (hother (by simp [hparent]))).symm
  | some above =>
    rw [isCollapsed_detach hparent, Bool.and_eq_true]
    refine and_congr_right fun hcollapsed => ?_
    by_cases hx : x = above
    · simp [hx, List.filter_eq_nil_iff]
    · rw [beq_false_of_ne hx, Bool.false_and, Bool.not_false, eq_self, true_iff]
      refine hother ?_ hcollapsed
      rw [hparent, Ne, Option.some.injEq]
      exact Ne.symm hx

theorem attach (h : f.Valid) (hroot : f.parent? node = none) (hne : node ≠ group)
    (hnot : node ∉ f.ancestors group) : (f.attach group node).Valid := by
  constructor
  case mem_children_iff =>
    intro x y
    rw [children_attach, parent?_attach]
    have hout : ∀ x, node ∉ f.children x := by
      intro x hmem
      rw [h.mem_children_iff, hroot] at hmem
      cases hmem
    by_cases hy : y = node
    · rw [hy, beq_self_eq_true, if_pos rfl, Option.some.injEq]
      split
      · next hx =>
        rw [beq_iff_eq] at hx
        simp [hx]
      · next hx =>
        rw [beq_iff_eq] at hx
        simp [hout, Ne.symm hx]
    · rw [beq_false_of_ne hy, if_neg Bool.false_ne_true, ← h.mem_children_iff]
      split
      · next hx =>
        rw [beq_iff_eq] at hx
        simp [hx, hy]
      · rfl
  case nodup_children =>
    intro x
    rw [children_attach]
    split
    · refine List.nodup_append.mpr ⟨h.nodup_children group, by simp, ?_⟩
      rintro y hy z hz rfl
      rw [List.mem_singleton] at hz
      subst hz
      rw [h.mem_children_iff, hroot] at hy
      cases hy
    · exact h.nodup_children x
  case isGroup_iff =>
    intro x
    rw [isGroup_attach, children_attach]
    split
    · next heq => simp [heq]
    · next heq =>
      rw [Bool.not_eq_true] at heq
      rw [heq, Bool.false_or]
      exact h.isGroup_iff x
  case isGroup_of_collapsed =>
    intro x hx
    rw [isGroup_attach, h.isGroup_of_collapsed x hx, Bool.or_true]
  case acyclic => exact h.acyclic.insert hne hnot fun x => parent?_attach

theorem move (h : f.Valid) (hne : node ≠ group) (hnot : node ∉ f.ancestors group) :
    (f.move group node).Valid := by
  refine (h.detach node).attach ?_ hne ?_
  · rw [parent?_detach, beq_self_eq_true, if_pos rfl]
  · rw [h.acyclic.ancestors_congr (h.detach node).acyclic fun x hx => ?_]
    · exact hnot
    · rw [parent?_detach, beq_false_of_ne, if_neg Bool.false_ne_true]
      rintro rfl
      exact hx.elim hne hnot

theorem moves {members : List α} (h : f.Valid)
    (hmembers : ∀ x ∈ members, x ≠ group ∧ x ∉ f.ancestors group) :
    Moves group members f (members.foldl (fun f member => f.move group member) f) := by
  induction members generalizing f with
  | nil => exact .done h
  | cons member members ih =>
    obtain ⟨hne, hnot⟩ := hmembers member List.mem_cons_self
    have hmove := h.move hne hnot
    have hsame : (f.move group member).ancestors group = f.ancestors group := by
      refine h.acyclic.ancestors_congr hmove.acyclic fun x hx => ?_
      rw [parent?_move, beq_false_of_ne, if_neg Bool.false_ne_true]
      rintro rfl
      exact hx.elim hne hnot
    refine .move h (ih hmove fun x hx => ?_)
    rw [hsame]
    exact hmembers x (List.mem_cons_of_mem _ hx)

theorem moves_of_group {members : List α} {grouped : GroupForest α} (h : f.Valid)
    (hdone : f.group group members = .ok grouped) : Moves group members f grouped := by
  rw [GroupForest.group] at hdone
  split at hdone
  · cases hdone
  · next hfind =>
    cases hdone
    refine h.moves fun x hx => ?_
    have hfalse := List.find?_eq_none.mp hfind x hx
    rw [Bool.or_eq_true, beq_iff_eq, List.contains_iff_mem] at hfalse
    exact not_or.mp hfalse

theorem of_group {members : List α} {grouped : GroupForest α} (h : f.Valid)
    (hdone : f.group group members = .ok grouped) :
    grouped.Valid ∧ ∀ x, grouped.parent? x = if x ∈ members then some group else f.parent? x :=
  ⟨(h.moves_of_group hdone).valid, fun _ => (h.moves_of_group hdone).parent?_eq⟩

theorem collapse (h : f.Valid) (node : α) :
    (f.collapse node).2.Valid ∧ ∀ x, (f.collapse node).2.parent? x = f.parent? x := by
  rw [GroupForest.collapse]
  split
  · next hgroup =>
    rw [Bool.and_eq_true] at hgroup
    refine ⟨⟨h.mem_children_iff, h.nodup_children, h.isGroup_iff, fun x hx => ?_, h.acyclic⟩,
      fun _ => rfl⟩
    change (f.collapsed.insert node).contains x = true at hx
    rw [Std.HashSet.contains_insert, Bool.or_eq_true, beq_iff_eq] at hx
    rcases hx with rfl | hx
    · exact hgroup.1
    · exact h.isGroup_of_collapsed x hx
  · exact ⟨h, fun _ => rfl⟩

theorem expand (h : f.Valid) (node : α) :
    (f.expand node).2.Valid ∧ ∀ x, (f.expand node).2.parent? x = f.parent? x := by
  rw [GroupForest.expand]
  split
  · refine ⟨⟨h.mem_children_iff, h.nodup_children, h.isGroup_iff, fun x hx => ?_, h.acyclic⟩,
      fun _ => rfl⟩
    change (f.collapsed.erase node).contains x = true at hx
    rw [Std.HashSet.contains_erase, Bool.and_eq_true] at hx
    exact h.isGroup_of_collapsed x hx.2
  · exact ⟨h, fun _ => rfl⟩

theorem parent?_ungroup (h : f.Valid) :
    (f.ungroup node).2.parent? x =
      if x ∈ f.children node then f.parent? node else f.parent? x := by
  by_cases hgroup : f.isGroup node = true
  · rw [ungroup_of_isGroup hgroup]
    exact parent?_foldl_handUp
  · have hempty : f.children node = [] := by
      rwa [h.isGroup_iff, not_not] at hgroup
    rw [ungroup_of_not_isGroup (Bool.eq_false_of_not_eq_true hgroup), hempty]
    simp

theorem children_ungroup_above (h : f.Valid) (hgroup : f.isGroup node = true)
    (habove : f.parent? node = some x) :
    (f.ungroup node).2.children x = f.children x ++ f.children node := by
  rw [ungroup_of_isGroup hgroup, children_foldl_handUp, children_cut, habove, beq_self_eq_true,
    if_pos rfl, beq_false_of_ne (h.acyclic.ne_of_parent habove), if_neg Bool.false_ne_true]

theorem children_ungroup_of_ne (hgroup : f.isGroup node = true)
    (habove : f.parent? node ≠ some x) :
    (f.ungroup node).2.children x = if x == node then [] else f.children x := by
  rw [ungroup_of_isGroup hgroup, children_foldl_handUp, children_cut, beq_false_of_ne habove,
    if_neg Bool.false_ne_true]

theorem acyclic_ungroup (h : f.Valid) (node : α) : (f.ungroup node).2.Acyclic := by
  obtain ⟨rank, hrank⟩ := h.acyclic
  refine ⟨rank, fun x parent hx => ?_⟩
  rw [h.parent?_ungroup] at hx
  split at hx
  · next hchild =>
    exact (hrank node parent hx).trans (hrank x node ((h.mem_children_iff node x).mp hchild))
  · exact hrank x parent hx

theorem ungroup (h : f.Valid) (node : α) : (f.ungroup node).2.Valid := by
  by_cases hgroup : f.isGroup node = true
  case neg =>
    rw [ungroup_of_not_isGroup (Bool.eq_false_of_not_eq_true hgroup)]
    exact h
  have hchildren : f.children node ≠ [] := (h.isGroup_iff node).mp hgroup
  have hisGroup : ∀ x, (f.ungroup node).2.isGroup x =
      (f.parent? node == some x || (!(x == node) && f.isGroup x)) := by
    intro x
    rw [ungroup_of_isGroup hgroup, isGroup_foldl_handUp hchildren, isGroup_cut]
  constructor
  case mem_children_iff =>
    intro x y
    rw [h.parent?_ungroup]
    by_cases habove : f.parent? node = some x
    · rw [h.children_ungroup_above hgroup habove, List.mem_append, h.mem_children_iff x y]
      split
      · next hy => exact iff_of_true (Or.inr hy) habove
      · next hy => exact or_iff_left hy
    · rw [children_ungroup_of_ne hgroup habove]
      by_cases hx : x = node
      · rw [hx, beq_self_eq_true, if_pos rfl]
        split
        · next hy => exact iff_of_false List.not_mem_nil (hx ▸ habove)
        · next hy =>
          rw [h.mem_children_iff] at hy
          exact iff_of_false List.not_mem_nil hy
      · rw [beq_false_of_ne hx, if_neg Bool.false_ne_true, h.mem_children_iff]
        split
        · next hy =>
          rw [(h.mem_children_iff node y).mp hy, Option.some.injEq]
          exact iff_of_false (Ne.symm hx) habove
        · rfl
  case nodup_children =>
    intro x
    by_cases habove : f.parent? node = some x
    · rw [h.children_ungroup_above hgroup habove]
      refine List.nodup_append.mpr ⟨h.nodup_children x, h.nodup_children node, ?_⟩
      rintro y hy z hz rfl
      rw [h.mem_children_iff] at hy hz
      rw [hy, Option.some.injEq] at hz
      exact h.acyclic.ne_of_parent habove hz
    · rw [children_ungroup_of_ne hgroup habove]
      split
      · exact List.nodup_nil
      · exact h.nodup_children x
  case isGroup_iff =>
    intro x
    rw [hisGroup]
    by_cases habove : f.parent? node = some x
    · rw [h.children_ungroup_above hgroup habove, habove, beq_self_eq_true, Bool.true_or]
      exact iff_of_true rfl (List.append_ne_nil_of_right_ne_nil _ hchildren)
    · rw [children_ungroup_of_ne hgroup habove, beq_false_of_ne habove, Bool.false_or]
      by_cases hx : x = node
      · simp [hx]
      · simpa [hx] using h.isGroup_iff x
  case isGroup_of_collapsed =>
    intro x hx
    rw [ungroup_of_isGroup hgroup, isCollapsed_foldl_handUp, isCollapsed_cut, Bool.and_eq_true] at hx
    rw [hisGroup, hx.1, h.isGroup_of_collapsed x hx.2, Bool.and_self, Bool.or_true]
  case acyclic => exact h.acyclic_ungroup node

/-! ### Forgetting a node -/

/-- Forgetting a node is taking it out of its group and dissolving the group that it is, except that
the flag of a node that is no group is taken away although it has none. -/
theorem remove_eq (h : f.Valid) (node : α) :
    (f.remove node).parents = ((f.detach node).ungroup node).2.parents ∧
      (f.remove node).members = ((f.detach node).ungroup node).2.members ∧
      ∀ x, (f.remove node).isCollapsed x = ((f.detach node).ungroup node).2.isCollapsed x := by
  have hroot : (f.detach node).parent? node = none := by
    rw [parent?_detach, beq_self_eq_true, if_pos rfl]
  by_cases hgroup : (f.detach node).isGroup node = true
  · rw [ungroup_of_isGroup hgroup, hroot, foldl_handUp_none]
    rw [isGroup, Std.HashMap.contains_eq_isSome_getElem?, Option.isSome_iff_exists] at hgroup
    obtain ⟨children, hchildren⟩ := hgroup
    rw [remove, GroupForest.children, Std.HashMap.getD_eq_getD_getElem?, hchildren]
    exact ⟨rfl, rfl, fun _ => rfl⟩
  · have hloose := Bool.eq_false_of_not_eq_true hgroup
    rw [ungroup_of_not_isGroup hloose]
    rw [isGroup, Std.HashMap.contains_eq_isSome_getElem?, Option.isSome_eq_false_iff,
      Option.isNone_iff_eq_none] at hloose
    rw [remove, hloose]
    refine ⟨rfl, rfl, fun x => ?_⟩
    change ((f.detach node).collapsed.erase node).contains x = _
    rw [Std.HashSet.contains_erase]
    by_cases hx : node = x
    · subst hx
      rw [beq_self_eq_true, Bool.not_true, Bool.false_and, eq_comm, Bool.eq_false_iff]
      exact fun hcollapsed => hgroup ((h.detach node).isGroup_of_collapsed node hcollapsed)
    · rw [beq_false_of_ne hx]
      rfl

theorem remove (h : f.Valid) (node : α) : (f.remove node).Valid := by
  obtain ⟨hparents, hmembers, hcollapsed⟩ := h.remove_eq node
  have hvalid := (h.detach node).ungroup node
  constructor
  case mem_children_iff =>
    intro x y
    rw [children, parent?, hparents, hmembers]
    exact hvalid.mem_children_iff x y
  case nodup_children =>
    intro x
    rw [children, hmembers]
    exact hvalid.nodup_children x
  case isGroup_iff =>
    intro x
    rw [isGroup, children, hmembers]
    exact hvalid.isGroup_iff x
  case isGroup_of_collapsed =>
    intro x hx
    rw [hcollapsed] at hx
    rw [isGroup, hmembers]
    exact hvalid.isGroup_of_collapsed x hx
  case acyclic =>
    obtain ⟨rank, hrank⟩ := hvalid.acyclic
    refine ⟨rank, fun x parent hx => hrank x parent ?_⟩
    rwa [parent?, ← hparents]

theorem parent?_remove (h : f.Valid) :
    (f.remove node).parent? x =
      if x == node || (f.children node).contains x then none else f.parent? x := by
  have hself : node ∉ f.children node := by
    intro hmem
    exact h.acyclic.ne_of_parent ((h.mem_children_iff node node).mp hmem) rfl
  have hchildren : (f.detach node).children node = f.children node := by
    cases hparent : f.parent? node with
    | none => rw [GroupForest.detach, hparent]
    | some group =>
      rw [children_detach hparent, beq_false_of_ne (h.acyclic.ne_of_parent hparent).symm]
      rfl
  rw [parent?, (h.remove_eq node).1, ← parent?, (h.detach node).parent?_ungroup, hchildren,
    parent?_detach, parent?_detach, beq_self_eq_true, if_pos rfl]
  by_cases hx : x = node
  · simp [hx, hself]
  · by_cases hmem : x ∈ f.children node <;> simp [hx, hmem]

theorem isCollapsed_remove (h : f.Valid) (hne : x ≠ node) {y : α} (hchild : f.parent? y = some x)
    (hother : y ≠ node) : (f.remove node).isCollapsed x = f.isCollapsed x := by
  have hroot : (f.detach node).parent? node = none := by
    rw [parent?_detach, beq_self_eq_true, if_pos rfl]
  have hungroup : ((f.detach node).ungroup node).2.isCollapsed x = (f.detach node).isCollapsed x := by
    by_cases hgroup : (f.detach node).isGroup node = true
    · rw [ungroup_of_isGroup hgroup, hroot, foldl_handUp_none]
      change ((f.detach node).cut node).isCollapsed x = _
      rw [isCollapsed_cut, beq_false_of_ne hne]
      rfl
    · rw [ungroup_of_not_isGroup (Bool.eq_false_of_not_eq_true hgroup)]
  rw [(h.remove_eq node).2.2, hungroup, Bool.eq_iff_iff, h.isCollapsed_detach_iff]
  exact and_iff_left ⟨y, (h.mem_children_iff x y).mpr hchild, hother⟩

end Valid

/-! ### What stays above a node when others are forgotten -/

/-- The second forest is the first after the nodes of a set were forgotten: the other nodes keep
what lay above them up to the first of these. -/
structure Pruned (gone : α → Bool) (f f' : GroupForest α) : Prop where
  ancestors_eq : ∀ node, gone node = false →
    f'.ancestors node = (f.ancestors node).takeWhile fun x => !gone x
  isCollapsed_eq : ∀ node, gone node = false → ∀ x ∈ f'.ancestors node,
    f'.isCollapsed x = f.isCollapsed x

namespace Pruned

variable {gone gone' : α → Bool} {f'' : GroupForest α}

omit [LawfulBEq α] in
theorem refl (f : GroupForest α) : Pruned (fun _ => false) f f where
  ancestors_eq := fun _ _ => (List.takeWhile_eq_self_iff.mpr fun _ _ => rfl).symm
  isCollapsed_eq := fun _ _ _ _ => rfl

omit [LawfulBEq α] in
theorem trans (h : Pruned gone f f') (h' : Pruned gone' f' f'') :
    Pruned (fun x => gone x || gone' x) f f'' where
  ancestors_eq := by
    intro node hnode
    rw [Bool.or_eq_false_iff] at hnode
    rw [h'.ancestors_eq node hnode.2, h.ancestors_eq node hnode.1, List.takeWhile_takeWhile]
    congr 1
    funext x
    cases gone x <;> cases gone' x <;> rfl
  isCollapsed_eq := by
    intro node hnode x hx
    rw [Bool.or_eq_false_iff] at hnode
    rw [h'.isCollapsed_eq node hnode.2 x hx]
    refine h.isCollapsed_eq node hnode.1 x ?_
    rw [h'.ancestors_eq node hnode.2] at hx
    exact (List.takeWhile_prefix _).subset hx

omit [LawfulBEq α] in
/-- A node is hidden afterwards if there is a collapsed group above it below the first forgotten
node. -/
theorem isHidden_eq (h : Pruned gone f f') (hnode : gone node = false) :
    f'.isHidden node = ((f.ancestors node).takeWhile fun x => !gone x).any f.isCollapsed := by
  rw [isHidden, ← h.ancestors_eq node hnode]
  refine Bool.eq_iff_iff.mpr ?_
  rw [List.any_eq_true, List.any_eq_true]
  exact exists_congr fun x => and_congr_right fun hx => by rw [h.isCollapsed_eq node hnode x hx]

end Pruned

theorem Valid.pruned_remove (h : f.Valid) (gone : α) : Pruned (· == gone) f (f.remove gone) := by
  have hvalid := h.remove gone
  have hstep : ∀ node parent, f.parent? node = some parent → node ≠ gone →
      (f.remove gone).parent? node = if parent == gone then none else some parent := by
    intro node parent hparent hnode
    rw [h.parent?_remove, beq_false_of_ne hnode, Bool.false_or, hparent]
    have hmem : (f.children gone).contains node = (parent == gone) := by
      rw [Bool.eq_iff_iff, List.contains_iff_mem, h.mem_children_iff, hparent, Option.some.injEq,
        beq_iff_eq]
    rw [hmem]
  refine ⟨fun node hnode => ?_, fun node hnode x hx => ?_⟩
  · rw [beq_eq_false_iff_ne] at hnode
    induction node using h.acyclic.induction with
    | root node hroot =>
      have hroot' : (f.remove gone).parent? node = none := by
        rw [h.parent?_remove, hroot]
        split <;> rfl
      rw [Acyclic.ancestors_of_none hroot, Acyclic.ancestors_of_none hroot', List.takeWhile_nil]
    | step node parent hparent ih =>
      have hparent' := hstep node parent hparent hnode
      rw [h.acyclic.ancestors_of_some hparent]
      by_cases hgone : parent = gone
      · rw [hgone, beq_self_eq_true, if_pos rfl] at hparent'
        rw [Acyclic.ancestors_of_none hparent', List.takeWhile_cons_of_neg (by simp [hgone])]
      · rw [beq_false_of_ne hgone, if_neg Bool.false_ne_true] at hparent'
        rw [hvalid.acyclic.ancestors_of_some hparent', List.takeWhile_cons_of_pos (by simp [hgone]),
          ih hgone]
  · rw [beq_eq_false_iff_ne] at hnode
    induction node using h.acyclic.induction with
    | root node hroot =>
      have hroot' : (f.remove gone).parent? node = none := by
        rw [h.parent?_remove, hroot]
        split <;> rfl
      rw [Acyclic.ancestors_of_none hroot'] at hx
      cases hx
    | step node parent hparent ih =>
      have hparent' := hstep node parent hparent hnode
      by_cases hgone : parent = gone
      · rw [hgone, beq_self_eq_true, if_pos rfl] at hparent'
        rw [Acyclic.ancestors_of_none hparent'] at hx
        cases hx
      · rw [beq_false_of_ne hgone, if_neg Bool.false_ne_true] at hparent'
        rw [hvalid.acyclic.ancestors_of_some hparent'] at hx
        rcases List.mem_cons.mp hx with rfl | hx
        · exact h.isCollapsed_remove hgone hparent hnode
        · exact ih hgone hx

end PropertyGraph.GroupForest

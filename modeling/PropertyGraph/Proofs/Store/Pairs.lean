import PropertyGraph.Proofs.Store.Tallies

/-!
# Indexes and mutual pairs

No two edges have source, target and label in common, so the index of the pairs can lead to every
edge. An edge with a reverse is directed, and so is its reverse: these two are a mutual pair, and
both say so. When an edge comes, its reverse cannot be half of another pair, since the other half
would run parallel to the new edge; when an edge goes, its reverse is left without one. In either
case exactly two flags change, and with them the counters at both ends.
-/

namespace PropertyGraph

namespace EdgeSlot

def flag (e : EdgeSlot) (paired : Bool) : EdgeSlot := { e with isMutual := paired }

variable {e f : EdgeSlot} {n : Nat}

theorem hasLabel_congr (h : e.label = f.label) : e.hasLabel n = f.hasLabel n := by
  rw [hasLabel, h, hasLabel]

theorem isLoop_congr (h : e.ends = f.ends) : e.isLoop = f.isLoop := by
  rw [isLoop, source, target, h]
  rfl

theorem Reverses.irrefl : ¬e.Reverses e := fun h => h.2.2.2 h.1

theorem Reverses.isMutualFrom_add (h : f.Reverses e) :
    ((f.flag true).isMutualFrom n).toNat + ((e.flag true).isMutualFrom n).toNat =
      if n = e.source ∨ n = e.target then 1 else 0 := by
  change (f.source == n).toNat + (e.source == n).toNat = _
  rw [h.1]
  have hne := h.2.2.2
  by_cases hsource : n = e.source
  · rw [if_pos (.inl hsource), hsource, beq_self_eq_true, beq_false_of_ne hne.symm]
    rfl
  · by_cases htarget : n = e.target
    · rw [if_pos (.inr htarget), htarget, beq_self_eq_true, beq_false_of_ne hne]
      rfl
    · rw [if_neg (not_or.mpr ⟨hsource, htarget⟩), beq_false_of_ne (Ne.symm hsource),
        beq_false_of_ne (Ne.symm htarget)]
      rfl

theorem Reverses.isMutualDown_add (h : f.Reverses e) :
    (f.flag true).isMutualDown.toNat + (e.flag true).isMutualDown.toNat = 1 := by
  change (decide (f.target < f.source)).toNat + (decide (e.target < e.source)).toNat = 1
  rw [h.1, h.2.1]
  rcases Nat.lt_or_gt_of_ne h.2.2.2 with hlt | hgt
  · rw [decide_eq_true hlt, decide_eq_false (Nat.lt_asymm hlt)]
    rfl
  · rw [decide_eq_true hgt, decide_eq_false (Nat.lt_asymm hgt)]
    rfl

end EdgeSlot

/-! ### What entering the indexes and leaving them does -/

namespace EdgeTable

variable {t : EdgeTable} {e : EdgeSlot} {slot source target label : Nat}

theorem find?_register :
    (t.register slot e).find? source target label =
      if e.source = source ∧ e.target = target ∧ e.label = label then some slot
      else t.find? source target label := by
  rw [find?, register, Std.HashMap.getElem?_insert]
  simp only [beq_iff_eq, Prod.mk.injEq]
  rfl

theorem find?_remove :
    (t.remove slot e).find? source target label =
      if e.source = source ∧ e.target = target ∧ e.label = label then none
      else t.find? source target label := by
  rw [find?, remove, Std.HashMap.getElem?_erase]
  simp only [beq_iff_eq, Prod.mk.injEq]
  rfl

theorem labelCount_register :
    (t.register slot e).labelCount label = t.labelCount label + (e.hasLabel label).toNat := by
  rw [labelCount, register, Std.HashMap.getD_insert, EdgeSlot.hasLabel]
  by_cases heq : e.label = label
  · rw [heq, beq_self_eq_true]
    rfl
  · rw [beq_false_of_ne heq]
    rfl

theorem labelCount_remove :
    (t.remove slot e).labelCount label = t.labelCount label - (e.hasLabel label).toNat := by
  rw [labelCount, remove, Std.HashMap.getD_insert, EdgeSlot.hasLabel]
  by_cases heq : e.label = label
  · rw [heq, beq_self_eq_true]
    rfl
  · rw [beq_false_of_ne heq]
    rfl

theorem loopCount_register : (t.register slot e).loopCount = t.loopCount + e.isLoop.toNat := by
  rw [register]
  cases e.isLoop <;> rfl

theorem loopCount_remove : (t.remove slot e).loopCount = t.loopCount - e.isLoop.toNat := by
  rw [remove]
  cases e.isLoop <;> rfl

end EdgeTable

namespace Store

variable {s s' : Store} {slot i j n : Nat} {p : Phase} {e f x : EdgeSlot} {order : List Nat}
  {P : EdgeSlot → Bool} {paired : Bool} {N : NodeSlot}

/-! ### What marking a pair does -/

theorem edgeGet?_setMutual :
    (s.setMutual slot j e paired).edges.get? i = (s.edges.get? i).map fun x =>
      if i = slot ∨ i = j then x.flag paired else x := by
  change ((s.modifyEdge slot (·.flag paired)).modifyEdge j (·.flag paired)).edges.get? i = _
  rw [edgeGet?_modifyEdge, edgeGet?_modifyEdge, Option.map_map]
  congr 1
  funext x
  simp only [Function.comp]
  by_cases hj : i = j
  · rw [if_pos hj, if_pos (Or.inr hj : i = slot ∨ i = j)]
    split <;> rfl
  · rw [if_neg hj]
    exact if_congr (or_iff_left hj).symm rfl rfl

theorem plain?_setMutual :
    (s.setMutual slot j e paired).plain? i = (s.plain? i).map fun x =>
      if i = slot ∨ i = j then x.flag paired else x := by
  rw [plain?, edgeGet?_setMutual, plain?, Option.map_map, Option.map_map]
  congr 1
  funext x
  simp only [Function.comp]
  split <;> rfl

theorem plain?_setMutual_of_ne (hslot : i ≠ slot) (hj : i ≠ j) :
    (s.setMutual slot j e paired).plain? i = s.plain? i := by
  rw [plain?_setMutual]
  simp only [hslot, hj, or_self, if_false, Option.map_id']

theorem nodeGet?_setMutual (hne : e.source ≠ e.target) :
    (s.setMutual slot j e paired).nodes.get? n = (s.nodes.get? n).map fun N =>
      if n = e.source ∨ n = e.target then N.countMutual paired else N := by
  change ((s.modifyNode e.source (·.countMutual paired)).modifyNode e.target
    (·.countMutual paired)).nodes.get? n = _
  rw [nodeGet?_modifyNode, nodeGet?_modifyNode, Option.map_map]
  congr 1
  funext N
  simp only [Function.comp]
  by_cases hsource : n = e.source
  · rw [if_pos hsource, if_neg (hsource ▸ hne), if_pos (.inl hsource)]
  · by_cases htarget : n = e.target
    · rw [if_neg hsource, if_pos htarget, if_pos (.inr htarget)]
    · rw [if_neg hsource, if_neg htarget, if_neg (not_or.mpr ⟨hsource, htarget⟩)]

theorem plain?_setMutual_self (h : s.plain? slot = some x) :
    (s.setMutual slot j e paired).plain? slot = some (x.flag paired) := by
  rw [plain?_setMutual, h, Option.map_some, if_pos (.inl rfl)]

theorem plain?_setMutual_reverse (h : s.plain? j = some x) :
    (s.setMutual slot j e paired).plain? j = some (x.flag paired) := by
  rw [plain?_setMutual, h, Option.map_some, if_pos (.inr rfl)]

theorem tally_setMutual (hP : ∀ (x : EdgeSlot) b, P (x.flag b) = P x) :
    (s.setMutual slot j e paired).tally order P = s.tally order P := by
  refine List.countP_congr fun i _ => ?_
  rw [plain?_setMutual]
  cases s.plain? i with
  | none => rfl
  | some x =>
    simp only [Option.map_some, Option.any_some]
    split
    · rw [hP]
    · rfl

/-! ### What freeing the slot of an edge does -/

theorem edgeGet?_remove (hvalid : s.edges.arena.Valid) :
    (s.edges.remove slot e).get? i = if i = slot then none else s.edges.get? i :=
  hvalid.get?_free

theorem plain?_remove (hvalid : s.edges.arena.Valid) (hne : i ≠ slot) :
    ({ s with edges := s.edges.remove slot e } : Store).plain? i = s.plain? i := by
  rw [plain?, edgeGet?_remove hvalid, if_neg hne, plain?]

/-! ### Indexes -/

/-- The index of the pairs leads to the listed edges and to no other, and the counters of labels and
loops count them. -/
structure Indexed (s : Store) (order : List Nat) : Prop where
  find?_iff : ∀ source target label i, s.edges.find? source target label = some i ↔
    i ∈ order ∧ ∃ e, s.plain? i = some e ∧ e.source = source ∧ e.target = target ∧ e.label = label
  labelCount : ∀ label, s.edges.labelCount label = s.tally order (·.hasLabel label)
  loopCount : s.edges.loopCount = s.tally order (·.isLoop)

namespace Indexed

theorem congr (h : s.Indexed order) (hedges : ∀ i ∈ order, s'.plain? i = s.plain? i)
    (hpairs : s'.edges.pairs = s.edges.pairs) (hlabels : s'.edges.labelCounts = s.edges.labelCounts)
    (hloops : s'.edges.loopCount = s.edges.loopCount) : s'.Indexed order where
  find?_iff := by
    intro source target label i
    rw [EdgeTable.find?, hpairs, ← EdgeTable.find?, h.find?_iff]
    exact and_congr_right fun hi => by rw [hedges i hi]
  labelCount := by
    intro label
    rw [EdgeTable.labelCount, hlabels, tally_congr hedges]
    exact h.labelCount label
  loopCount := by
    rw [hloops, tally_congr hedges]
    exact h.loopCount

theorem setMutual (h : s.Indexed order) : (s.setMutual slot j e paired).Indexed order where
  find?_iff := by
    intro source target label i
    change s.edges.find? source target label = some i ↔ _
    rw [h.find?_iff, plain?_setMutual]
    refine and_congr_right fun _ => ?_
    cases s.plain? i with
    | none => simp
    | some x =>
      simp only [Option.map_some, Option.some.injEq, exists_eq_left']
      split <;> exact Iff.rfl
  labelCount := by
    intro label
    rw [tally_setMutual fun _ _ => rfl]
    exact h.labelCount label
  loopCount := by
    rw [tally_setMutual fun _ _ => rfl]
    exact h.loopCount

theorem eq_of_reverses (h : s.Indexed order) (hi : i ∈ order) (hj : j ∈ order)
    (hplain : s.plain? i = some f) (hplain' : s.plain? j = some x) (hf : f.Reverses e)
    (hx : x.Reverses e) : i = j := by
  have hfound := (h.find?_iff e.target e.source e.label i).mpr ⟨hi, f, hplain, hf.1, hf.2.1, hf.2.2.1⟩
  have hfound' := (h.find?_iff e.target e.source e.label j).mpr
    ⟨hj, x, hplain', hx.1, hx.2.1, hx.2.2.1⟩
  rw [hfound, Option.some.injEq] at hfound'
  exact hfound'

theorem reverse?_eq_some_iff (h : s.Indexed order) :
    s.reverse? e = some j ↔ j ∈ order ∧ ∃ f, s.plain? j = some f ∧ f.Reverses e := by
  rw [reverse?]
  by_cases hloop : e.source = e.target
  · rw [EdgeSlot.isLoop, hloop, beq_self_eq_true, if_pos rfl]
    constructor
    · intro hnone
      cases hnone
    · rintro ⟨_, f, _, hf⟩
      exact absurd hloop hf.2.2.2
  · rw [EdgeSlot.isLoop, beq_false_of_ne hloop, if_neg Bool.false_ne_true, h.find?_iff]
    refine and_congr_right fun _ => exists_congr fun f => and_congr_right fun _ => ?_
    constructor
    · rintro ⟨hsource, htarget, hlabel⟩
      exact ⟨hsource, htarget, hlabel, hloop⟩
    · exact fun hf => ⟨hf.1, hf.2.1, hf.2.2.1⟩

theorem reverse?_eq_none_iff (h : s.Indexed order) :
    s.reverse? e = none ↔ ∀ j ∈ order, ∀ f, s.plain? j = some f → ¬f.Reverses e := by
  rw [Option.eq_none_iff_forall_ne_some]
  constructor
  · intro hnone j hj f hf hreverses
    exact hnone j (h.reverse?_eq_some_iff.mpr ⟨hj, f, hf, hreverses⟩)
  · intro hnone j hj
    obtain ⟨hmem, f, hf, hreverses⟩ := h.reverse?_eq_some_iff.mp hj
    exact hnone j hmem f hf hreverses

theorem register (h : s.Indexed order) (hslot : s.plain? slot = some x) (hends : x.ends = e.ends)
    (hlabel : x.label = e.label) (hfree : s.edges.find? e.source e.target e.label = none) :
    ({ s with edges := s.edges.register slot e } : Store).Indexed (slot :: order) where
  find?_iff := by
    intro source target label i
    change (s.edges.register slot e).find? source target label = some i ↔
      i ∈ slot :: order ∧ ∃ y, s.plain? i = some y ∧ _
    rw [EdgeTable.find?_register, List.mem_cons]
    by_cases hkey : e.source = source ∧ e.target = target ∧ e.label = label
    · obtain ⟨rfl, rfl, rfl⟩ := hkey
      rw [if_pos ⟨rfl, rfl, rfl⟩]
      constructor
      · rintro ⟨⟩
        exact ⟨.inl rfl, x, hslot, congrArg Sides.outgoing hends, congrArg Sides.incoming hends, hlabel⟩
      · rintro ⟨rfl | hi, hrest⟩
        · rfl
        · rw [(h.find?_iff _ _ _ i).mpr ⟨hi, hrest⟩] at hfree
          cases hfree
    · rw [if_neg hkey, h.find?_iff]
      constructor
      · rintro ⟨hi, hrest⟩
        exact ⟨.inr hi, hrest⟩
      · rintro ⟨rfl | hi, y, hy, hrest⟩
        · rw [hslot, Option.some.injEq] at hy
          subst hy
          rw [← hlabel, EdgeSlot.source, EdgeSlot.target, ← hends] at hkey
          exact absurd hrest hkey
        · exact ⟨hi, y, hy, hrest⟩
  labelCount := by
    intro label
    change (s.edges.register slot e).labelCount label = s.tally (slot :: order) _
    rw [EdgeTable.labelCount_register, tally_cons hslot, h.labelCount, EdgeSlot.hasLabel_congr hlabel]
  loopCount := by
    change (s.edges.register slot e).loopCount = s.tally (slot :: order) _
    rw [EdgeTable.loopCount_register, tally_cons hslot, h.loopCount, EdgeSlot.isLoop_congr hends]

theorem remove (h : s.Indexed order) (hvalid : s.edges.arena.Valid) (hnodup : order.Nodup)
    (hmem : slot ∈ order) (hslot : s.plain? slot = some x) (hends : x.ends = e.ends)
    (hlabel : x.label = e.label) :
    ({ s with edges := s.edges.remove slot e } : Store).Indexed (order.erase slot) := by
  have hrest : ∀ i ∈ order.erase slot,
      ({ s with edges := s.edges.remove slot e } : Store).plain? i = s.plain? i :=
    fun i hi => plain?_remove hvalid (hnodup.mem_erase_iff.mp hi).1
  have hfound := (h.find?_iff e.source e.target e.label slot).mpr
    ⟨hmem, x, hslot, congrArg Sides.outgoing hends, congrArg Sides.incoming hends, hlabel⟩
  refine ⟨fun source target label i => ?_, fun label => ?_, ?_⟩
  · change (s.edges.remove slot e).find? source target label = some i ↔ _
    rw [EdgeTable.find?_remove]
    by_cases hkey : e.source = source ∧ e.target = target ∧ e.label = label
    · obtain ⟨rfl, rfl, rfl⟩ := hkey
      rw [if_pos ⟨rfl, rfl, rfl⟩]
      constructor
      · rintro ⟨⟩
      · rintro ⟨hi, hin⟩
        rw [hrest i hi] at hin
        obtain ⟨hne, hi⟩ := hnodup.mem_erase_iff.mp hi
        rw [(h.find?_iff _ _ _ i).mpr ⟨hi, hin⟩, Option.some.injEq] at hfound
        exact absurd hfound hne
    · rw [if_neg hkey, h.find?_iff]
      constructor
      · rintro ⟨hi, y, hy, hin⟩
        have hne : i ≠ slot := by
          rintro rfl
          rw [hslot, Option.some.injEq] at hy
          subst hy
          rw [← hlabel, EdgeSlot.source, EdgeSlot.target, ← hends] at hkey
          exact hkey hin
        have hi' := hnodup.mem_erase_iff.mpr ⟨hne, hi⟩
        exact ⟨hi', y, (hrest i hi').trans hy, hin⟩
      · rintro ⟨hi, hin⟩
        rw [hrest i hi] at hin
        exact ⟨(hnodup.mem_erase_iff.mp hi).2, hin⟩
  · have herase := tally_erase (P := (·.hasLabel label)) hmem hslot
    rw [← h.labelCount, EdgeSlot.hasLabel_congr hlabel] at herase
    change (s.edges.remove slot e).labelCount label = _
    rw [EdgeTable.labelCount_remove, tally_congr hrest]
    exact Nat.sub_eq_of_eq_add herase.symm
  · have herase := tally_erase (P := (·.isLoop)) hmem hslot
    rw [← h.loopCount, EdgeSlot.isLoop_congr hends] at herase
    change (s.edges.remove slot e).loopCount = _
    rw [EdgeTable.loopCount_remove, tally_congr hrest]
    exact Nat.sub_eq_of_eq_add herase.symm

end Indexed

/-! ### Mutual pairs -/

/-- Of the listed edges, exactly those with a reverse are flagged. All of these are directed, and
the counters of mutual pairs count them: at every node the flagged edges that leave it, and in the
whole store one of the two flagged edges of a pair. -/
structure Mutual (s : Store) (order : List Nat) : Prop where
  directed : ∀ i ∈ order, ∀ j ∈ order, ∀ e f, s.plain? i = some e → s.plain? j = some f →
    f.Reverses e → e.edge.directed = true
  isMutual_iff : ∀ i ∈ order, ∀ e, s.plain? i = some e →
    (e.isMutual = true ↔ ∃ j ∈ order, ∃ f, s.plain? j = some f ∧ f.Reverses e)
  mutualDegree : ∀ n N, s.nodes.get? n = some N → N.mutualDegree = s.tally order (·.isMutualFrom n)
  mutualCount : s.edges.mutualCount = s.tally order (·.isMutualDown)

namespace Mutual

theorem congr (h : s.Mutual order) (hedges : ∀ i ∈ order, s'.plain? i = s.plain? i)
    (hcount : s'.edges.mutualCount = s.edges.mutualCount)
    (hnodes : ∀ n N', s'.nodes.get? n = some N' →
      ∃ N, s.nodes.get? n = some N ∧ N'.mutualDegree = N.mutualDegree) : s'.Mutual order where
  directed := by
    intro i hi j hj e f he hf
    rw [hedges i hi] at he
    rw [hedges j hj] at hf
    exact h.directed i hi j hj e f he hf
  isMutual_iff := by
    intro i hi e he
    rw [hedges i hi] at he
    rw [h.isMutual_iff i hi e he]
    refine exists_congr fun j => and_congr_right fun hj => ?_
    rw [hedges j hj]
  mutualDegree := by
    intro n N' hN'
    obtain ⟨N, hN, heq⟩ := hnodes n N' hN'
    rw [heq, tally_congr hedges]
    exact h.mutualDegree n N hN
  mutualCount := by
    rw [hcount, tally_congr hedges]
    exact h.mutualCount

/-! An edge without a reverse comes and goes without any flag being changed. -/

theorem exists_reverses_cons_iff (hslot : s.plain? slot = some e) (hnot : ¬e.Reverses x) :
    (∃ j ∈ slot :: order, ∃ f, s.plain? j = some f ∧ f.Reverses x) ↔
      ∃ j ∈ order, ∃ f, s.plain? j = some f ∧ f.Reverses x := by
  rw [List.exists_mem_cons_iff]
  refine or_iff_right ?_
  rintro ⟨f, hf, hreverses⟩
  rw [hslot, Option.some.injEq] at hf
  exact hnot (hf ▸ hreverses)

theorem exists_reverses_erase_iff (hmem : slot ∈ order) (hslot : s.plain? slot = some e)
    (hnot : ¬e.Reverses x) :
    (∃ j ∈ order.erase slot, ∃ f, s.plain? j = some f ∧ f.Reverses x) ↔
      ∃ j ∈ order, ∃ f, s.plain? j = some f ∧ f.Reverses x := by
  rw [← exists_reverses_cons_iff hslot hnot]
  exact exists_congr fun j => and_congr_left' (List.perm_cons_erase hmem).mem_iff.symm

theorem cons (h : s.Mutual order) (hslot : s.plain? slot = some e) (hplain : e.isMutual = false)
    (halone : ∀ j ∈ order, ∀ f, s.plain? j = some f → ¬f.Reverses e) :
    s.Mutual (slot :: order) where
  directed := by
    intro i hin j hjn x y hx hy hreverses
    rcases List.mem_cons.mp hin with rfl | hi <;> rcases List.mem_cons.mp hjn with rfl | hj
    · rw [hx, Option.some.injEq] at hy
      exact absurd (hy ▸ hreverses) EdgeSlot.Reverses.irrefl
    · rw [hslot, Option.some.injEq] at hx
      exact absurd (hx ▸ hreverses) (halone j hj y hy)
    · rw [hslot, Option.some.injEq] at hy
      exact absurd (hy ▸ hreverses).symm (halone i hi x hx)
    · exact h.directed i hi j hj x y hx hy hreverses
  isMutual_iff := by
    intro i hin x hx
    rcases List.mem_cons.mp hin with rfl | hi
    · rw [hslot, Option.some.injEq] at hx
      subst hx
      rw [hplain, exists_reverses_cons_iff hslot EdgeSlot.Reverses.irrefl]
      refine iff_of_false Bool.false_ne_true ?_
      rintro ⟨j, hj, f, hf, hreverses⟩
      exact halone j hj f hf hreverses
    · rw [exists_reverses_cons_iff hslot fun hreverses => halone i hi x hx hreverses.symm]
      exact h.isMutual_iff i hi x hx
  mutualDegree := by
    intro n N hN
    rw [tally_cons hslot, EdgeSlot.isMutualFrom, hplain]
    exact h.mutualDegree n N hN
  mutualCount := by
    rw [tally_cons hslot, EdgeSlot.isMutualDown, hplain]
    exact h.mutualCount

theorem erase (h : s.Mutual order) (hmem : slot ∈ order) (hslot : s.plain? slot = some e)
    (hplain : e.isMutual = false) : s.Mutual (order.erase slot) where
  directed := fun i hi j hj =>
    h.directed i (List.mem_of_mem_erase hi) j (List.mem_of_mem_erase hj)
  isMutual_iff := by
    have halone : ∀ j ∈ order, ∀ f, s.plain? j = some f → ¬f.Reverses e := by
      intro j hj f hf hreverses
      rw [(h.isMutual_iff slot hmem e hslot).mpr ⟨j, hj, f, hf, hreverses⟩] at hplain
      cases hplain
    intro i hin x hx
    have hi := List.mem_of_mem_erase hin
    rw [exists_reverses_erase_iff hmem hslot fun hreverses => halone i hi x hx hreverses.symm]
    exact h.isMutual_iff i hi x hx
  mutualDegree := by
    intro n N hN
    have herase := tally_erase (P := (·.isMutualFrom n)) hmem hslot
    rw [EdgeSlot.isMutualFrom, hplain] at herase
    rw [h.mutualDegree n N hN]
    exact herase.symm
  mutualCount := by
    have herase := tally_erase (P := (·.isMutualDown)) hmem hslot
    rw [EdgeSlot.isMutualDown, hplain] at herase
    rw [h.mutualCount]
    exact herase.symm

/-! Otherwise the flags of the edge and of its reverse change, and no others. -/

theorem exists_plain?_of_setMutual (h : (s.setMutual slot j e paired).plain? i = some x) :
    ∃ y b, s.plain? i = some y ∧ x = y.flag b := by
  rw [plain?_setMutual, Option.map_eq_some_iff] at h
  obtain ⟨y, hy, rfl⟩ := h
  split
  · exact ⟨y, paired, hy, rfl⟩
  · exact ⟨y, y.isMutual, hy, rfl⟩

theorem exists_plain?_setMutual (h : s.plain? i = some x) :
    ∃ b, (s.setMutual slot j e paired).plain? i = some (x.flag b) := by
  rw [plain?_setMutual, h, Option.map_some]
  split
  · exact ⟨paired, rfl⟩
  · exact ⟨x.isMutual, rfl⟩

theorem exists_reverses_setMutual_iff :
    (∃ k ∈ order, ∃ g, (s.setMutual slot j e paired).plain? k = some g ∧ g.Reverses x) ↔
      ∃ k ∈ order, ∃ g, s.plain? k = some g ∧ g.Reverses x := by
  refine exists_congr fun k => and_congr_right fun _ => ?_
  constructor
  · rintro ⟨g', hg', hreverses⟩
    obtain ⟨g, _, hg, rfl⟩ := exists_plain?_of_setMutual hg'
    exact ⟨g, hg, hreverses⟩
  · rintro ⟨g, hg, hreverses⟩
    obtain ⟨b, hg'⟩ := exists_plain?_setMutual hg
    exact ⟨g.flag b, hg', hreverses⟩

theorem tally_pair (hP : ∀ x : EdgeSlot, x.isMutual = false → P x = false) (hnodup : order.Nodup)
    (hfresh : slot ∉ order) (hslot : s.plain? slot = some x) (hj : j ∈ order)
    (hf : s.plain? j = some f) (hloose : f.isMutual = false) :
    (s.setMutual slot j e true).tally (slot :: order) P =
      s.tally order P + ((P (f.flag true)).toNat + (P (x.flag true)).toNat) := by
  have hrest : ∀ i ∈ order, i ≠ j → (s.setMutual slot j e true).plain? i = s.plain? i :=
    fun i hi => plain?_setMutual_of_ne (ne_of_mem_of_not_mem hi hfresh)
  have hupdate := tally_update (P := P) hnodup hj hf (plain?_setMutual_reverse hf) hrest
  rw [hP f hloose, Bool.toNat_false, Nat.add_zero] at hupdate
  rw [tally_cons (plain?_setMutual_self hslot), hupdate, Nat.add_assoc]

theorem tally_unpair (hP : ∀ x : EdgeSlot, x.isMutual = false → P x = false) (hnodup : order.Nodup)
    (hmem : slot ∈ order) (hslot : s.plain? slot = some x) (hj : j ∈ order.erase slot)
    (hf : s.plain? j = some f) :
    (s.setMutual slot j e false).tally (order.erase slot) P + ((P f).toNat + (P x).toNat) =
      s.tally order P := by
  have hrest : ∀ i ∈ order.erase slot, i ≠ j →
      (s.setMutual slot j e false).plain? i = s.plain? i :=
    fun i hi => plain?_setMutual_of_ne (hnodup.mem_erase_iff.mp hi).1
  have hupdate := tally_update (P := P) (hnodup.erase slot) hj hf (plain?_setMutual_reverse hf) hrest
  rw [hP (f.flag false) rfl, Bool.toNat_false, Nat.add_zero] at hupdate
  rw [← Nat.add_assoc, hupdate, tally_erase hmem hslot]

theorem isMutualFrom_of_loose (hloose : x.isMutual = false) : x.isMutualFrom n = false := by
  rw [EdgeSlot.isMutualFrom, hloose, Bool.false_and]

theorem isMutualDown_of_loose (hloose : x.isMutual = false) : x.isMutualDown = false := by
  rw [EdgeSlot.isMutualDown, hloose, Bool.false_and]

theorem pair (h : s.Mutual order) (hindexed : s.Indexed order) (hnodup : order.Nodup)
    (hfresh : slot ∉ order) (hslot : s.plain? slot = some e.unlinked)
    (hdirected : e.edge.directed = true) (hfree : s.edges.find? e.source e.target e.label = none)
    (hj : j ∈ order) (hf : s.plain? j = some f) (hreverses : f.Reverses e)
    (hdirected' : f.edge.directed = true) :
    (s.setMutual slot j e true).Mutual (slot :: order) := by
  -- the other half of a pair with the reverse would run parallel to the new edge
  have hloose : f.isMutual = false := by
    rw [← Bool.not_eq_true, h.isMutual_iff j hj f hf]
    rintro ⟨k, hk, g, hg, hg₁, hg₂, hg₃, _⟩
    have hfound := (hindexed.find?_iff e.source e.target e.label k).mpr
      ⟨hk, g, hg, hg₁.trans hreverses.2.1, hg₂.trans hreverses.1, hg₃.trans hreverses.2.2.1⟩
    rw [hfree] at hfound
    cases hfound
  have honly : ∀ k ∈ order, ∀ g, s.plain? k = some g → g.Reverses e → k = j :=
    fun k hk g hg hreverses' => hindexed.eq_of_reverses hk hj hg hf hreverses' hreverses
  have hslot' : (s.setMutual slot j e true).plain? slot = some (e.unlinked.flag true) :=
    plain?_setMutual_self hslot
  have hf' : (s.setMutual slot j e true).plain? j = some (f.flag true) :=
    plain?_setMutual_reverse hf
  constructor
  case directed =>
    intro i hin k hkn x' y' hx' hy' hxy
    obtain ⟨x, _, hx, rfl⟩ := exists_plain?_of_setMutual hx'
    obtain ⟨y, _, hy, rfl⟩ := exists_plain?_of_setMutual hy'
    change x.edge.directed = true
    rcases List.mem_cons.mp hin with rfl | hi
    · rw [hslot, Option.some.injEq] at hx
      exact hx ▸ hdirected
    · rcases List.mem_cons.mp hkn with rfl | hk
      · rw [hslot, Option.some.injEq] at hy
        subst hy
        rw [honly i hi x hx hxy.symm, hf, Option.some.injEq] at hx
        exact hx ▸ hdirected'
      · exact h.directed i hi k hk x y hx hy hxy
  case isMutual_iff =>
    intro i hin x hx
    rcases List.mem_cons.mp hin with rfl | hi
    · rw [hslot', Option.some.injEq] at hx
      subst hx
      exact iff_of_true rfl ⟨j, List.mem_cons_of_mem _ hj, _, hf', hreverses⟩
    · by_cases hij : i = j
      · rw [hij, hf', Option.some.injEq] at hx
        subst hx
        exact iff_of_true rfl ⟨slot, List.mem_cons_self, _, hslot', hreverses.symm⟩
      · rw [plain?_setMutual_of_ne (ne_of_mem_of_not_mem hi hfresh) hij] at hx
        rw [exists_reverses_setMutual_iff, exists_reverses_cons_iff hslot
          fun hreverses' => hij (honly i hi x hx hreverses'.symm)]
        exact h.isMutual_iff i hi x hx
  case mutualDegree =>
    intro n N' hN'
    rw [nodeGet?_setMutual (fun heq => hreverses.2.2.2 heq), Option.map_eq_some_iff] at hN'
    obtain ⟨N, hN, rfl⟩ := hN'
    rw [tally_pair (fun _ => isMutualFrom_of_loose) hnodup hfresh hslot hj hf hloose,
      ← h.mutualDegree n N hN, EdgeSlot.Reverses.isMutualFrom_add (e := e.unlinked) hreverses]
    change _ = N.mutualDegree + if n = e.source ∨ n = e.target then 1 else 0
    split <;> rfl
  case mutualCount =>
    rw [tally_pair (fun _ => isMutualDown_of_loose) hnodup hfresh hslot hj hf hloose,
      ← h.mutualCount, EdgeSlot.Reverses.isMutualDown_add (e := e.unlinked) hreverses]
    rfl

theorem unpair (h : s.Mutual order) (hindexed : s.Indexed order) (hnodup : order.Nodup)
    (hmem : slot ∈ order) (hslot : s.plain? slot = some e.unlinked) (hj : j ∈ order)
    (hf : s.plain? j = some f) (hreverses : f.Reverses e) :
    (s.setMutual slot j e false).Mutual (order.erase slot) := by
  have hne : j ≠ slot := by
    rintro rfl
    rw [hslot, Option.some.injEq] at hf
    subst hf
    exact hreverses.2.2.2 hreverses.1
  have hj' : j ∈ order.erase slot := hnodup.mem_erase_iff.mpr ⟨hne, hj⟩
  have hflag : e.unlinked.flag true = e.unlinked := by
    rw [← (h.isMutual_iff slot hmem _ hslot).mpr ⟨j, hj, f, hf, hreverses⟩]
    rfl
  have hflag' : f.flag true = f := by
    rw [← (h.isMutual_iff j hj _ hf).mpr ⟨slot, hmem, _, hslot, hreverses.symm⟩]
    rfl
  constructor
  case directed =>
    intro i hi k hk x' y' hx' hy' hxy
    obtain ⟨x, _, hx, rfl⟩ := exists_plain?_of_setMutual hx'
    obtain ⟨y, _, hy, rfl⟩ := exists_plain?_of_setMutual hy'
    exact h.directed i (List.mem_of_mem_erase hi) k (List.mem_of_mem_erase hk) x y hx hy hxy
  case isMutual_iff =>
    intro i hi x hx
    obtain ⟨hislot, hin⟩ := hnodup.mem_erase_iff.mp hi
    rw [exists_reverses_setMutual_iff]
    by_cases hij : i = j
    · -- the edge that goes was the only reverse
      subst hij
      rw [plain?_setMutual_reverse hf, Option.some.injEq] at hx
      subst hx
      refine iff_of_false Bool.false_ne_true ?_
      rintro ⟨k, hk, g, hg, hgf⟩
      obtain ⟨hkslot, hk⟩ := hnodup.mem_erase_iff.mp hk
      exact hkslot (hindexed.eq_of_reverses hk hmem hg hslot hgf hreverses.symm)
    · rw [plain?_setMutual_of_ne hislot hij] at hx
      rw [exists_reverses_erase_iff hmem hslot fun hreverses' =>
        hij (hindexed.eq_of_reverses hin hj hx hf hreverses'.symm hreverses)]
      exact h.isMutual_iff i hin x hx
  case mutualDegree =>
    intro n N' hN'
    rw [nodeGet?_setMutual (fun heq => hreverses.2.2.2 heq), Option.map_eq_some_iff] at hN'
    obtain ⟨N, hN, rfl⟩ := hN'
    have hboth := EdgeSlot.Reverses.isMutualFrom_add (e := e.unlinked) (n := n) hreverses
    have hcount := tally_unpair (P := (·.isMutualFrom n)) (e := e)
      (fun _ => isMutualFrom_of_loose) hnodup hmem hslot hj' hf
    rw [hflag, hflag'] at hboth
    rw [hboth, ← h.mutualDegree n N hN] at hcount
    refine .trans ?_ (Nat.sub_eq_of_eq_add hcount.symm)
    change _ = N.mutualDegree - if n = e.source ∨ n = e.target then 1 else 0
    split <;> rfl
  case mutualCount =>
    have hboth := EdgeSlot.Reverses.isMutualDown_add (e := e.unlinked) hreverses
    have hcount := tally_unpair (P := (·.isMutualDown)) (e := e)
      (fun _ => isMutualDown_of_loose) hnodup hmem hslot hj' hf
    rw [hflag, hflag'] at hboth
    rw [hboth, ← h.mutualCount] at hcount
    exact Nat.sub_eq_of_eq_add hcount.symm

end Mutual

end Store

end PropertyGraph

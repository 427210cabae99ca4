import Mathlib.Data.Set.Card
import Mathlib.Data.Sym.Sym2
import PropertyGraph.Proofs.Adjacency
import PropertyGraph.Session.Lookup

/-!
# What the counters of a store count

A store keeps the degrees of its nodes and the numbers of its edges, of the edges with a label, of
the loops and of the mutual pairs. Each of them is the number of things that it is named for, among
the edges that are stored. A pair counts at a node once, for the edge that leaves the node, and in
the store once, for the edge that runs down to the lower slot.
-/

namespace PropertyGraph

theorem countP_eq_encard {α β : Type} {l : List α} {P : α → Bool} {f : α → β} (hnodup : l.Nodup)
    (hinj : ∀ i ∈ l, ∀ j ∈ l, P i = true → P j = true → f i = f j → i = j) :
    (l.countP P : ℕ∞) = {y | ∃ i ∈ l, P i = true ∧ f i = y}.encard := by
  induction l with
  | nil => simp
  | cons x rest ih =>
    obtain ⟨hnot, hnodup⟩ := List.nodup_cons.mp hnodup
    have ih :=
      ih hnodup fun i hi j hj => hinj i (List.mem_cons_of_mem x hi) j (List.mem_cons_of_mem x hj)
    rw [List.countP_cons]
    by_cases hx : P x = true
    · have hset : {y | ∃ i ∈ x :: rest, P i = true ∧ f i = y} =
          insert (f x) {y | ∃ i ∈ rest, P i = true ∧ f i = y} := by
        ext y
        constructor
        · rintro ⟨i, hi, hP, rfl⟩
          rcases List.mem_cons.mp hi with rfl | hi
          · exact .inl rfl
          · exact .inr ⟨i, hi, hP, rfl⟩
        · rintro (rfl | ⟨i, hi, hP, rfl⟩)
          · exact ⟨x, List.mem_cons_self, hx, rfl⟩
          · exact ⟨i, List.mem_cons_of_mem x hi, hP, rfl⟩
      have hfresh : f x ∉ {y | ∃ i ∈ rest, P i = true ∧ f i = y} := by
        rintro ⟨i, hi, hP, heq⟩
        rw [hinj i (List.mem_cons_of_mem x hi) x List.mem_cons_self hP hx heq] at hi
        exact hnot hi
      rw [hset, Set.encard_insert_of_notMem hfresh, ← ih, if_pos hx]
      push_cast
      rfl
    · have hset : {y | ∃ i ∈ x :: rest, P i = true ∧ f i = y} =
          {y | ∃ i ∈ rest, P i = true ∧ f i = y} := by
        ext y
        simp [hx]
      rw [hset, ← ih, if_neg hx, Nat.add_zero]

theorem length_eq_encard {α : Type} {l : List α} (hnodup : l.Nodup) :
    (l.length : ℕ∞) = {x | x ∈ l}.encard := by
  have hcount := countP_eq_encard (P := fun _ => true) (f := id) hnodup fun _ _ _ _ _ _ h => h
  simpa using hcount

namespace Session

open PropertyGraph.Action

variable {s : Session} {edges : List Edge} {order : List Nat} {node : Node} {edge : Edge}

def Joins (s : Session) (source target : Node) (label : String) : Prop :=
  ∃ edge, s.containsEdge edge = true ∧ edge.directed = true ∧ edge.source = source ∧
    edge.target = target ∧ edge.label = label

/-- Every counter is the number of what it counts. -/
structure CountersExact (s : Session) : Prop where
  degree : ∀ node, s.containsNode node = true → ∀ p : Phase, ∃ d : Nat,
    s.phaseDegree node p = .ok d ∧
      (d : ℕ∞) = {edge | s.containsEdge edge = true ∧ edge.node p.role = node}.encard
  mutualDegree : ∀ node, s.containsNode node = true → ∃ d : Nat, s.mutualDegree node = .ok d ∧
    (d : ℕ∞) = {x : Node × String | x.1 ≠ node ∧ s.Joins node x.1 x.2 ∧ s.Joins x.1 node x.2}.encard
  edgeCount : (s.edgeCount : ℕ∞) = {edge | s.containsEdge edge = true}.encard
  edgeCountOf : ∀ label,
    (s.edgeCountOf label : ℕ∞) = {edge | s.containsEdge edge = true ∧ edge.label = label}.encard
  loopCount : (s.store.edges.loopCount : ℕ∞) =
    {edge | s.containsEdge edge = true ∧ edge.source = edge.target}.encard
  mutualCount : (s.store.edges.mutualCount : ℕ∞) =
    {x : Sym2 Node × String | ∃ a b, a ≠ b ∧ x.1 = s(a, b) ∧ s.Joins a b x.2 ∧ s.Joins b a x.2}.encard

/-- Every counter that is lowered when the edge is taken out is positive. -/
structure Lowerable (s : Session) (e : EdgeSlot) : Prop where
  size : 0 < s.store.edges.arena.size
  labelCount : 0 < s.store.edges.labelCount e.label
  loopCount : e.isLoop = true → 0 < s.store.edges.loopCount
  mutualCount : e.isMutual = true → 0 < s.store.edges.mutualCount
  degree : ∀ p : Phase, ∃ N, s.store.nodes.get? (e.ends.get p) = some N ∧ 0 < N.degrees.get p
  mutualDegree : e.isMutual = true →
    ∀ p : Phase, ∃ N, s.store.nodes.get? (e.ends.get p) = some N ∧ 0 < N.mutualDegree

/-! ### Slots and handles

The counters are tallies over slots, and what they count is said of handles. -/

namespace Consistent

variable {i j n : Nat} {e f : EdgeSlot} {p q : Phase}

theorem containsEdge_iff_plain? (hs : s.Consistent order) :
    s.containsEdge edge = true ↔ ∃ i e, s.store.plain? i = some e ∧ e.edge = edge := by
  rw [hs.containsEdge_iff]
  refine exists_congr fun i => ?_
  rw [Store.edge?_eq, Store.fixed?_eq, Option.map_map, Option.map_eq_some_iff]
  rfl

theorem mem_of_plain? (hs : s.Consistent order) (hi : s.store.plain? i = some e) : i ∈ order := by
  rw [hs.sound.mem_iff, hi]
  rfl

theorem containsEdge_of_plain? (hs : s.Consistent order) (hi : s.store.plain? i = some e) :
    s.containsEdge e.edge = true :=
  hs.containsEdge_iff_plain?.mpr ⟨i, e, hi, rfl⟩

theorem slot_eq_of_edge_eq (hs : s.Consistent order) (hi : s.store.plain? i = some e)
    (hj : s.store.plain? j = some f) (hedge : e.edge = f.edge) : i = j := by
  have hi' : s.store.edge? i = some e.edge := by
    rw [Store.edge?_eq, Store.fixed?_eq, hi]
    rfl
  have hj' : s.store.edge? j = some f.edge := by
    rw [Store.edge?_eq, Store.fixed?_eq, hj]
    rfl
  exact hs.edge_unique hi' (hedge ▸ hj')

theorem endsAt_iff (hs : s.Consistent order) (hnode : s.store.node? n = some node)
    (hi : s.store.plain? i = some e) : e.endsAt p n = true ↔ e.edge.node p.role = node := by
  have hend := hs.sound.node_of_end i e p hi
  rw [EdgeSlot.endsAt, beq_iff_eq]
  constructor
  · intro heq
    rw [heq, hnode, Option.some.injEq] at hend
    exact hend.symm
  · intro heq
    rw [heq] at hend
    exact hs.node_unique hend hnode

theorem end_eq_iff (hs : s.Consistent order) (hi : s.store.plain? i = some e)
    (hj : s.store.plain? j = some f) :
    e.ends.get p = f.ends.get q ↔ e.edge.node p.role = f.edge.node q.role := by
  rw [← hs.endsAt_iff (hs.sound.node_of_end j f q hj) hi, EdgeSlot.endsAt, beq_iff_eq]

theorem idOf?_label (hs : s.Consistent order) (hi : s.store.plain? i = some e) :
    s.store.labels.idOf? e.edge.label = some e.label :=
  (hs.sound.labels_sound.ids_iff _ _).mpr (hs.sound.label_of i e hi)

theorem label_eq_iff (hs : s.Consistent order) (hi : s.store.plain? i = some e)
    (hj : s.store.plain? j = some f) : e.label = f.label ↔ e.edge.label = f.edge.label := by
  constructor
  · intro heq
    have hlabel := hs.sound.label_of i e hi
    rw [heq, hs.sound.label_of j f hj, Option.some.injEq] at hlabel
    exact hlabel.symm
  · intro heq
    have hid := hs.idOf?_label hi
    rw [heq, hs.idOf?_label hj, Option.some.injEq] at hid
    exact hid.symm

theorem slot_eq_of_parallel (hs : s.Consistent order) (hi : s.store.plain? i = some e)
    (hj : s.store.plain? j = some f) (hsource : e.edge.source = f.edge.source)
    (htarget : e.edge.target = f.edge.target) (hlabel : e.edge.label = f.edge.label) : i = j := by
  have hsource' : e.source = f.source :=
    (hs.end_eq_iff (p := .outgoing) (q := .outgoing) hi hj).mpr hsource
  have htarget' : e.target = f.target :=
    (hs.end_eq_iff (p := .incoming) (q := .incoming) hi hj).mpr htarget
  have hfound :=
    (hs.sound.indexed.find?_iff _ _ _ i).mpr ⟨hs.mem_of_plain? hi, e, hi, hsource', htarget',
    (hs.label_eq_iff hi hj).mpr hlabel⟩
  rw [(hs.sound.indexed.find?_iff _ _ _ j).mpr ⟨hs.mem_of_plain? hj, f, hj, rfl, rfl, rfl⟩] at hfound
  exact (Option.some.inj hfound).symm

theorem reverses_iff (hs : s.Consistent order) (hi : s.store.plain? i = some e)
    (hj : s.store.plain? j = some f) : f.Reverses e ↔ f.edge.source = e.edge.target ∧
      f.edge.target = e.edge.source ∧ f.edge.label = e.edge.label ∧ e.edge.source ≠ e.edge.target :=
  and_congr (hs.end_eq_iff (p := .outgoing) (q := .incoming) hj hi)
    (and_congr (hs.end_eq_iff (p := .incoming) (q := .outgoing) hj hi)
      (and_congr (hs.label_eq_iff hj hi)
        (not_congr (hs.end_eq_iff (p := .outgoing) (q := .incoming) hi hi))))

theorem isMutual_iff (hs : s.Consistent order) (hi : s.store.plain? i = some e) :
    e.isMutual = true ↔ e.edge.source ≠ e.edge.target ∧
      s.Joins e.edge.source e.edge.target e.edge.label ∧
      s.Joins e.edge.target e.edge.source e.edge.label := by
  rw [hs.sound.paired.isMutual_iff i (hs.mem_of_plain? hi) e hi]
  constructor
  · rintro ⟨j, hj, f, hf, hreverses⟩
    have hdirected := hs.sound.paired.directed i (hs.mem_of_plain? hi) j hj e f hi hf hreverses
    have hdirected' := hs.sound.paired.directed j hj i (hs.mem_of_plain? hi) f e hf hi hreverses.symm
    obtain ⟨hsource, htarget, hlabel, hne⟩ := (hs.reverses_iff hi hf).mp hreverses
    exact ⟨hne, ⟨e.edge, hs.containsEdge_of_plain? hi, hdirected, rfl, rfl, rfl⟩,
      f.edge, hs.containsEdge_of_plain? hf, hdirected', hsource, htarget, hlabel⟩
  · rintro ⟨hne, _, reverse, hreverse, _, hsource, htarget, hlabel⟩
    obtain ⟨j, f, hf, rfl⟩ := hs.containsEdge_iff_plain?.mp hreverse
    exact ⟨j, hs.mem_of_plain? hf, f, hf, (hs.reverses_iff hi hf).mpr ⟨hsource, htarget, hlabel, hne⟩⟩

theorem exists_isMutual (hs : s.Consistent order) {a b : Node} {label : String} (hne : a ≠ b)
    (hjoins : s.Joins a b label) (hback : s.Joins b a label) : ∃ i e, s.store.plain? i = some e ∧
      e.isMutual = true ∧ e.edge.source = a ∧ e.edge.target = b ∧ e.edge.label = label := by
  obtain ⟨edge, hedge, hdirected, rfl, rfl, rfl⟩ := hjoins
  obtain ⟨i, e, hi, rfl⟩ := hs.containsEdge_iff_plain?.mp hedge
  refine ⟨i, e, hi, (hs.isMutual_iff hi).mpr ⟨hne, ?_, hback⟩, rfl, rfl, rfl⟩
  exact ⟨e.edge, hedge, hdirected, rfl, rfl, rfl⟩

theorem tally_eq_encard {β : Type} (hs : s.Consistent order) {P : EdgeSlot → Bool}
    {v : EdgeSlot → β} {S : Set β}
    (hinj : ∀ i j e f, s.store.plain? i = some e → s.store.plain? j = some f → P e = true →
      P f = true → v e = v f → i = j)
    (hS : ∀ y, y ∈ S ↔ ∃ i e, s.store.plain? i = some e ∧ P e = true ∧ v e = y) :
    (s.store.tally order P : ℕ∞) = S.encard := by
  have hvalue : ∀ i ∈ order, ∀ j ∈ order, (s.store.plain? i).any P = true →
      (s.store.plain? j).any P = true →
      (s.store.plain? i).map v = (s.store.plain? j).map v → i = j := by
    intro i _ j _ hi hj heq
    obtain ⟨e, he, hPe⟩ := (Option.any_eq_true _ _).mp hi
    obtain ⟨f, hf, hPf⟩ := (Option.any_eq_true _ _).mp hj
    rw [he, hf, Option.map_some, Option.map_some, Option.some.injEq] at heq
    exact hinj i j e f he hf hPe hPf heq
  have himage : {y | ∃ i ∈ order, (s.store.plain? i).any P = true ∧
      (s.store.plain? i).map v = y} = some '' S := by
    ext y
    constructor
    · rintro ⟨i, _, hi, rfl⟩
      obtain ⟨e, he, hP⟩ := (Option.any_eq_true _ _).mp hi
      exact ⟨v e, (hS _).mpr ⟨i, e, he, hP, rfl⟩, by rw [he, Option.map_some]⟩
    · rintro ⟨_, hy, rfl⟩
      obtain ⟨i, e, he, hP, rfl⟩ := (hS _).mp hy
      refine ⟨i, hs.mem_of_plain? he, ?_, by rw [he, Option.map_some]⟩
      rw [he]
      exact hP
  rw [Store.tally, countP_eq_encard hs.sound.nodup hvalue, himage,
    (Option.some_injective β).encard_image]

theorem tally_eq_encard_edges (hs : s.Consistent order) {P : EdgeSlot → Bool} {Q : Edge → Prop}
    (hQ : ∀ i e, s.store.plain? i = some e → (P e = true ↔ Q e.edge)) :
    (s.store.tally order P : ℕ∞) = {edge | s.containsEdge edge = true ∧ Q edge}.encard := by
  refine hs.tally_eq_encard (fun i j e f hi hj _ _ heq => hs.slot_eq_of_edge_eq hi hj heq)
    fun edge => ?_
  rw [Set.mem_ofPred_eq, hs.containsEdge_iff_plain?]
  constructor
  · rintro ⟨⟨i, e, hi, rfl⟩, hedge⟩
    exact ⟨i, e, hi, (hQ i e hi).mpr hedge, rfl⟩
  · rintro ⟨i, e, hi, hP, rfl⟩
    exact ⟨⟨i, e, hi, rfl⟩, (hQ i e hi).mp hP⟩

/-! ### The counters -/

theorem exists_nodeRecord (hnode : s.containsNode node = true) :
    ∃ n N, s.store.nodes.get? n = some N ∧ N.node = node ∧ s.nodeRecord node = .ok N := by
  obtain ⟨n, hslot⟩ := containsNode_iff_nodeSlot?.mp hnode
  obtain ⟨N, hN, hsame⟩ := Option.map_eq_some_iff.mp (node?_of_nodeSlot? hslot)
  have hresolve : s.resolveNode node = .ok n := by
    rw [resolveNode, hslot]
    rfl
  refine ⟨n, N, hN, hsame, ?_⟩
  rw [nodeRecord, hresolve, ok_bind, hN]
  rfl

theorem degree_eq_encard (hs : s.Consistent order) {N : NodeSlot}
    (hN : s.store.nodes.get? n = some N) : (N.degrees.get p : ℕ∞) =
      {edge | s.containsEdge edge = true ∧ edge.node p.role = N.node}.encard := by
  have hnode : s.store.node? n = some N.node := Store.node?_eq_some hN
  rw [hs.sound.degreed p n N hN]
  exact hs.tally_eq_encard_edges fun i e hi => hs.endsAt_iff hnode hi

/-- The flagged edges that leave a node stand for the mutual pairs at it. -/
theorem mutualDegree_eq_encard (hs : s.Consistent order) {N : NodeSlot}
    (hN : s.store.nodes.get? n = some N) : (N.mutualDegree : ℕ∞) =
      {x : Node × String | x.1 ≠ N.node ∧ s.Joins N.node x.1 x.2 ∧ s.Joins x.1 N.node x.2}.encard := by
  have hnode : s.store.node? n = some N.node := Store.node?_eq_some hN
  have hfrom : ∀ {i e}, s.store.plain? i = some e →
      (e.isMutualFrom n = true ↔ e.isMutual = true ∧ e.edge.source = N.node) := by
    intro i e hi
    rw [EdgeSlot.isMutualFrom, Bool.and_eq_true]
    exact and_congr_right fun _ => hs.endsAt_iff (p := .outgoing) hnode hi
  rw [hs.sound.paired.mutualDegree n N hN]
  refine hs.tally_eq_encard (v := fun e => (e.edge.target, e.edge.label))
    (fun i j e f hi hj he hf heq => ?_) fun x => ?_
  · rw [Prod.mk.injEq] at heq
    have hsource : e.edge.source = f.edge.source :=
      ((hfrom hi).mp he).2.trans ((hfrom hj).mp hf).2.symm
    exact hs.slot_eq_of_parallel hi hj hsource heq.1 heq.2
  · obtain ⟨other, label⟩ := x
    rw [Set.mem_ofPred_eq]
    constructor
    · rintro ⟨hne, hjoins, hback⟩
      obtain ⟨i, e, hi, hmutual, hsource, rfl, rfl⟩ := hs.exists_isMutual hne.symm hjoins hback
      exact ⟨i, e, hi, (hfrom hi).mpr ⟨hmutual, hsource⟩, rfl⟩
    · rintro ⟨i, e, hi, he, heq⟩
      rw [Prod.mk.injEq] at heq
      obtain ⟨rfl, rfl⟩ := heq
      obtain ⟨hmutual, hsource⟩ := (hfrom hi).mp he
      obtain ⟨hne, hjoins, hback⟩ := (hs.isMutual_iff hi).mp hmutual
      rw [hsource] at hne hjoins hback
      exact ⟨hne.symm, hjoins, hback⟩

/-- The flagged edges that run down to the lower slot stand for the mutual pairs. -/
theorem mutualCount_eq_encard (hs : s.Consistent order) : (s.store.edges.mutualCount : ℕ∞) =
    {x : Sym2 Node × String | ∃ a b, a ≠ b ∧ x.1 = s(a, b) ∧ s.Joins a b x.2 ∧
      s.Joins b a x.2}.encard := by
  have hdown : ∀ {e : EdgeSlot}, e.isMutualDown = true ↔ e.isMutual = true ∧ e.target < e.source := by
    intro e
    rw [EdgeSlot.isMutualDown, Bool.and_eq_true, decide_eq_true_iff]
  rw [hs.sound.paired.mutualCount]
  refine hs.tally_eq_encard (v := fun e => (s(e.edge.source, e.edge.target), e.edge.label))
    (fun i j e f hi hj he hf heq => ?_) fun x => ?_
  · rw [Prod.mk.injEq, Sym2.eq_iff] at heq
    obtain ⟨⟨hsource, htarget⟩ | ⟨hsource, htarget⟩, hlabel⟩ := heq
    · exact hs.slot_eq_of_parallel hi hj hsource htarget hlabel
    · have hsource' : e.source = f.target :=
        (hs.end_eq_iff (p := .outgoing) (q := .incoming) hi hj).mpr hsource
      have htarget' : e.target = f.source :=
        (hs.end_eq_iff (p := .incoming) (q := .outgoing) hi hj).mpr htarget
      have hlt := (hdown.mp he).2
      have hlt' := (hdown.mp hf).2
      omega
  · obtain ⟨ends, label⟩ := x
    rw [Set.mem_ofPred_eq]
    constructor
    · rintro ⟨a, b, hne, heq, hjoins, hback⟩
      simp only at heq
      subst heq
      obtain ⟨i, e, hi, hmutual, rfl, rfl, rfl⟩ := hs.exists_isMutual hne hjoins hback
      obtain ⟨j, f, hj, hmutual', hsource, htarget, hlabel⟩ :=
        hs.exists_isMutual hne.symm hback hjoins
      have hsource' : f.source = e.target :=
        (hs.end_eq_iff (p := .outgoing) (q := .incoming) hj hi).mpr hsource
      have htarget' : f.target = e.source :=
        (hs.end_eq_iff (p := .incoming) (q := .outgoing) hj hi).mpr htarget
      have hne' : e.source ≠ e.target :=
        fun h => hne ((hs.end_eq_iff (p := .outgoing) (q := .incoming) hi hi).mp h)
      rcases Nat.lt_or_gt_of_ne hne' with hlt | hgt
      · refine ⟨j, f, hj, hdown.mpr ⟨hmutual', by omega⟩, ?_⟩
        rw [hsource, htarget, hlabel, Sym2.eq_swap]
      · exact ⟨i, e, hi, hdown.mpr ⟨hmutual, hgt⟩, rfl⟩
    · rintro ⟨i, e, hi, he, heq⟩
      rw [Prod.mk.injEq] at heq
      obtain ⟨rfl, rfl⟩ := heq
      obtain ⟨hne, hjoins, hback⟩ := (hs.isMutual_iff hi).mp (hdown.mp he).1
      exact ⟨e.edge.source, e.edge.target, hne, rfl, hjoins, hback⟩

theorem perm_slots (hs : s.Consistent order) : order.Perm s.store.edges.arena.slots := by
  refine (List.perm_ext_iff_of_nodup hs.sound.nodup
    hs.sound.edges_valid.toLaid.nodup_slots).mpr fun i => ?_
  rw [hs.sound.mem_iff, hs.sound.edges_valid.toLaid.mem_slots, Store.plain?, Option.isSome_map]
  rfl

theorem tally_true (hs : s.Consistent order) :
    s.store.tally order (fun _ => true) = s.store.edges.arena.size := by
  have hall : ∀ i ∈ order, (s.store.plain? i).any (fun _ => true) = true := by
    intro i hi
    obtain ⟨e, he⟩ := Option.isSome_iff_exists.mp ((hs.sound.mem_iff i).mp hi)
    rw [he, Option.any_some]
  rw [Store.tally, List.countP_eq_length.mpr hall, hs.perm_slots.length_eq,
    hs.sound.edges_valid.size_eq]

theorem edgeCount_eq_encard (hs : s.Consistent order) :
    (s.edgeCount : ℕ∞) = {edge | s.containsEdge edge = true}.encard := by
  have hall := hs.tally_eq_encard_edges (P := fun _ => true) (Q := fun _ => True) fun _ _ _ => by simp
  rw [hs.tally_true] at hall
  rw [edgeCount]
  simpa only [and_true] using hall

theorem edgeCountOf_eq_encard (hs : s.Consistent order) (label : String) : (s.edgeCountOf label : ℕ∞) =
    {edge | s.containsEdge edge = true ∧ edge.label = label}.encard := by
  rw [edgeCountOf]
  cases hid : s.store.labels.idOf? label with
  | none =>
    have hempty : {edge | s.containsEdge edge = true ∧ edge.label = label} = ∅ := by
      ext edge
      rw [Set.mem_ofPred_eq, Set.mem_empty_iff_false, iff_false]
      rintro ⟨hedge, rfl⟩
      obtain ⟨i, e, hi, rfl⟩ := hs.containsEdge_iff_plain?.mp hedge
      rw [hs.idOf?_label hi] at hid
      cases hid
    rw [hempty, Set.encard_empty]
    rfl
  | some id =>
    simp only [hs.sound.indexed.labelCount]
    refine hs.tally_eq_encard_edges fun i e hi => ?_
    rw [EdgeSlot.hasLabel, beq_iff_eq]
    constructor
    · rintro rfl
      have hlabel := hs.sound.label_of i e hi
      rw [(hs.sound.labels_sound.ids_iff _ _).mp hid, Option.some.injEq] at hlabel
      exact hlabel.symm
    · rintro rfl
      rw [hs.idOf?_label hi, Option.some.injEq] at hid
      exact hid

theorem loopCount_eq_encard (hs : s.Consistent order) : (s.store.edges.loopCount : ℕ∞) =
    {edge | s.containsEdge edge = true ∧ edge.source = edge.target}.encard := by
  rw [hs.sound.indexed.loopCount]
  refine hs.tally_eq_encard_edges fun i e hi => ?_
  rw [EdgeSlot.isLoop, beq_iff_eq]
  exact hs.end_eq_iff (p := .outgoing) (q := .incoming) hi hi

theorem countersExact (hs : s.Consistent order) : s.CountersExact where
  degree := by
    intro node hnode p
    obtain ⟨n, N, hN, rfl, hrecord⟩ := exists_nodeRecord hnode
    refine ⟨N.degrees.get p, ?_, hs.degree_eq_encard hN⟩
    rw [phaseDegree, hrecord]
    rfl
  mutualDegree := by
    intro node hnode
    obtain ⟨n, N, hN, rfl, hrecord⟩ := exists_nodeRecord hnode
    refine ⟨N.mutualDegree, ?_, hs.mutualDegree_eq_encard hN⟩
    rw [Session.mutualDegree, hrecord]
    rfl
  edgeCount := hs.edgeCount_eq_encard
  edgeCountOf := hs.edgeCountOf_eq_encard
  loopCount := hs.loopCount_eq_encard
  mutualCount := hs.mutualCount_eq_encard

/-! ### Lowering them -/

theorem exists_reverse (hs : s.Consistent order) (hi : s.store.plain? i = some e)
    (hmutual : e.isMutual = true) : ∃ j ∈ order, ∃ f, s.store.plain? j = some f ∧ f.isMutual = true ∧
      f.Reverses e := by
  have hmem := hs.mem_of_plain? hi
  obtain ⟨j, hj, f, hf, hreverses⟩ := (hs.sound.paired.isMutual_iff i hmem e hi).mp hmutual
  exact ⟨j, hj, f, hf,
    (hs.sound.paired.isMutual_iff j hj f hf).mpr ⟨i, hmem, e, hi, hreverses.symm⟩, hreverses⟩

theorem lowerable (hs : s.Consistent order) (he : s.store.edges.get? i = some e) :
    s.Lowerable e := by
  have hi := Store.Sound.plain?_eq_some he
  have hmem := hs.mem_of_plain? hi
  have hnode : ∀ p : Phase, ∃ N, s.store.nodes.get? (e.ends.get p) = some N := by
    intro p
    obtain ⟨N, hN, _⟩ := Option.map_eq_some_iff.mp (hs.sound.node_of_end i e.unlinked p hi)
    exact ⟨N, hN⟩
  constructor
  case size =>
    rw [← hs.tally_true]
    exact Store.tally_pos hmem hi rfl
  case labelCount =>
    rw [hs.sound.indexed.labelCount]
    exact Store.tally_pos hmem hi (beq_self_eq_true e.label)
  case loopCount =>
    intro hloop
    rw [hs.sound.indexed.loopCount]
    exact Store.tally_pos hmem hi hloop
  case mutualCount =>
    intro hmutual
    obtain ⟨j, hj, f, hf, hmutual', hreverses⟩ := hs.exists_reverse hi hmutual
    have hsource : f.source = e.target := hreverses.1
    have htarget : f.target = e.source := hreverses.2.1
    have hne : e.source ≠ e.target := hreverses.2.2.2
    rw [hs.sound.paired.mutualCount]
    rcases Nat.lt_or_gt_of_ne hne with hlt | hgt
    · refine Store.tally_pos hj hf ?_
      rw [EdgeSlot.isMutualDown, hmutual', hsource, htarget, decide_eq_true hlt]
      rfl
    · refine Store.tally_pos hmem hi ?_
      exact Bool.and_eq_true_iff.mpr ⟨hmutual, decide_eq_true hgt⟩
  case degree =>
    intro p
    obtain ⟨N, hN⟩ := hnode p
    refine ⟨N, hN, ?_⟩
    rw [hs.sound.degreed p _ N hN]
    exact Store.tally_pos hmem hi (beq_self_eq_true (e.ends.get p))
  case mutualDegree =>
    intro hmutual p
    obtain ⟨N, hN⟩ := hnode p
    refine ⟨N, hN, ?_⟩
    rw [hs.sound.paired.mutualDegree _ N hN]
    cases p with
    | outgoing =>
      exact Store.tally_pos hmem hi (Bool.and_eq_true_iff.mpr ⟨hmutual, beq_self_eq_true e.source⟩)
    | incoming =>
      obtain ⟨j, hj, f, hf, hmutual', hreverses⟩ := hs.exists_reverse hi hmutual
      exact Store.tally_pos hj hf
        (Bool.and_eq_true_iff.mpr ⟨hmutual', beq_iff_eq.mpr hreverses.1⟩)

theorem mutualDegree_le (hs : s.Consistent order) {N : NodeSlot}
    (hN : s.store.nodes.get? n = some N) : N.mutualDegree ≤ N.degree := by
  have hle : N.mutualDegree ≤ N.degrees.get .outgoing := by
    rw [hs.sound.paired.mutualDegree n N hN, hs.sound.degreed .outgoing n N hN]
    refine Store.tally_mono fun e he => ?_
    rw [EdgeSlot.isMutualFrom, Bool.and_eq_true] at he
    exact he.2
  exact Nat.le_add_right_of_le hle

theorem mutualCount_le (hs : s.Consistent order) :
    s.store.edges.mutualCount ≤ s.store.edges.arena.size := by
  rw [hs.sound.paired.mutualCount, ← hs.tally_true]
  exact Store.tally_mono fun _ _ => rfl

end Consistent

theorem History.removeEach (h : History s edges) (gone : List Edge) :
    ∃ edges', History (removeEach gone s).2 edges' := by
  induction gone generalizing s edges with
  | nil => exact ⟨edges, h⟩
  | cons edge rest ih =>
    have hfirst := h.performed s edges (.removeEdge edge)
    rw [removeEach_cons]
    cases (removeEdge edge s).1 with
    | error fault => exact ⟨_, hfirst⟩
    | ok done => exact ih hfirst

/-- Every counter is exact whatever happened to the store. So none of them goes below zero, neither
when an edge is taken out, on its own or after others on the way to removing a node, nor when the
mutual pairs are taken off the degree of a node or off the number of edges. -/
theorem History.counters_exact (h : History s edges) :
    s.CountersExact ∧
      (∀ gone i e, (Session.removeEach gone s).2.store.edges.get? i = some e →
        (Session.removeEach gone s).2.Lowerable e) ∧
      (∀ n N, s.store.nodes.get? n = some N → N.mutualDegree ≤ N.degree) ∧
      s.store.edges.mutualCount ≤ s.store.edges.arena.size := by
  obtain ⟨order, hs, _⟩ := h.recorded
  refine ⟨hs.countersExact, fun gone i e he => ?_, fun n N hN => hs.mutualDegree_le hN,
    hs.mutualCount_le⟩
  obtain ⟨edges', hremoved⟩ := h.removeEach gone
  obtain ⟨order', hs', _⟩ := hremoved.recorded
  exact hs'.lowerable he

theorem counters_exact_looped :
    looped.CountersExact ∧ looped.Lowerable loopedEdge ∧
      loopedHub.mutualDegree ≤ loopedHub.degree ∧
      looped.store.edges.mutualCount ≤ looped.store.edges.arena.size :=
  ⟨history_looped.counters_exact.1, history_looped.counters_exact.2.1 [] 0 _ get?_looped.2,
    history_looped.counters_exact.2.2.1 0 _ get?_looped.1, history_looped.counters_exact.2.2.2⟩

end Session

end PropertyGraph

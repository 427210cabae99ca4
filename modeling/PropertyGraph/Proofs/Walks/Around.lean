import PropertyGraph.Proofs.Walks.Courses

/-!
# Walks around a node

A walk around a node comes to the edges on its chains, and to nothing else: first to those that leave
the node and then to those that enter it, as far as the direction goes, and within either half label
by label. A folded walk passes over the half of a mutual pair that runs up, and over a loop where it
comes in after it went out. The degrees of a node, which are kept as counters, are the lengths of its
walks, and its neighbors are at the far ends.
-/

namespace PropertyGraph

/-! ### Where entries come first -/

/-- A list has every entry of another one once, in the order in which they come first there. -/
structure FirstOf (l found : List Node) : Prop where
  mem_iff : ∀ node, node ∈ found ↔ node ∈ l
  in_order : found.Pairwise (l.idxOf · < l.idxOf ·)

theorem Session.firstOf_firstOccurrences (l : List Node) : FirstOf l (firstOccurrences l) := by
  rw [firstOccurrences]
  generalize hrun : (fun (x : Std.HashSet Node × Array Node) (node : Node) => _) = run
  -- of what was read so far, the set knows all entries, and the array has each once
  suffices hread : (∀ node, (l.foldl run (∅, #[])).1.contains node = true ↔ node ∈ l) ∧
      FirstOf l (l.foldl run (∅, #[])).2.toList from hread.2
  induction l using List.reverseRecOn with
  | nil => exact ⟨by simp, by simp, List.Pairwise.nil⟩
  | append_singleton l node ih =>
    obtain ⟨hseen, hmem, horder⟩ := ih
    rw [List.foldl_append, List.foldl_cons, List.foldl_nil]
    have hkept : (l.foldl run (∅, #[])).2.toList.Pairwise
        ((l ++ [node]).idxOf · < (l ++ [node]).idxOf ·) := by
      refine horder.imp_of_mem fun {a b} ha hb hlt => ?_
      rwa [List.idxOf_append_of_mem ((hmem a).mp ha), List.idxOf_append_of_mem ((hmem b).mp hb)]
    generalize l.foldl run (∅, #[]) = read at *
    obtain ⟨seen, found⟩ := read
    subst hrun
    simp only at hseen hmem hkept ⊢
    by_cases hold : node ∈ l
    · rw [if_pos ((hseen node).mpr hold)]
      refine ⟨fun other => ?_, fun other => ?_, hkept⟩
      · rw [hseen, List.mem_append, List.mem_singleton, iff_self_or]
        rintro rfl
        exact hold
      · rw [hmem, List.mem_append, List.mem_singleton, iff_self_or]
        rintro rfl
        exact hold
    · rw [if_neg fun h => hold ((hseen node).mp h)]
      refine ⟨fun other => ?_, fun other => ?_, ?_⟩
      · rw [Std.HashSet.contains_insert, Bool.or_eq_true, beq_iff_eq, hseen, List.mem_append,
          List.mem_singleton, or_comm, eq_comm]
      · rw [Array.toList_push, List.mem_append, hmem, List.mem_append]
      · rw [Array.toList_push, List.pairwise_append]
        refine ⟨hkept, List.pairwise_singleton _ _, fun a ha b hb => ?_⟩
        rw [List.mem_singleton.mp hb, List.idxOf_append_of_mem ((hmem a).mp ha),
          List.idxOf_append_of_notMem hold]
        exact Nat.lt_of_lt_of_le (List.idxOf_lt_length_of_mem ((hmem a).mp ha)) (Nat.le_add_right _ _)

/-! ### The edges on the chains of a node -/

/-- The ids of the labels along whose chains a walk goes: of all that are registered, in increasing
order, or of the one asked for, if it is. -/
def Store.labelIds (s : Store) : Option String → List Nat
  | none => s.labels.toList.map (·.1)
  | some label => (s.labels.idOf? label).toList

def farEnd : Phase × Edge → Node
  | (.outgoing, edge) => edge.target
  | (.incoming, edge) => edge.source

namespace Session

variable {s : Session} {order : List Nat} {edges : List Edge} {node : Node} {edge : Edge} {n i : Nat}
  {N : NodeSlot} {e : EdgeSlot} {p : Phase} {direction : Direction} {label : Option String}
  {folded : Bool}

/-- The edges on the chains of a node, half by half and label by label, where `edges` are all edges,
the one stored last first. -/
def edgesAround (s : Session) (edges : List Edge) (node : Node) (direction : Direction)
    (label : Option String) : List (Phase × Edge) :=
  direction.phases.flatMap fun p => (s.store.labelIds label).flatMap fun id =>
    (edges.filter (s.store.chainHas p node id)).map (p, ·)

def RunsUp (s : Session) (edge : Edge) : Prop :=
  ∃ n m, s.nodeSlot? edge.source = .ok (some n) ∧ s.nodeSlot? edge.target = .ok (some m) ∧ n < m

/-- What a folded walk does not show: the half of a mutual pair that runs up, and a loop where it
comes in after it went out. -/
def PassesOver (s : Session) (direction : Direction) (x : Phase × Edge) : Prop :=
  (s.IsPaired x.2 ∧ s.RunsUp x.2) ∨
    (direction = .both ∧ x.1 = .incoming ∧ x.2.source = x.2.target)

open Classical in
/-- Every walk around the node comes to the edges on its chains, or folded to those that are not
passed over; and what is counted and listed at the node agrees with its walks. -/
structure WalksExactly (s : Session) (edges : List Edge) (node : Node) : Prop where
  increasing : (s.store.labelIds none).Pairwise (· < ·)
  plain : ∀ direction label,
    s.adjacency node direction label false = .ok (s.edgesAround edges node direction label)
  folded : ∀ direction label, s.adjacency node direction label true =
    .ok ((s.edgesAround edges node direction label).filter fun x => ¬ s.PassesOver direction x)
  lists : ∀ direction label folded {walk : List (Phase × Edge)} {g : Graph}
    {space space' : GraphSpace} {it : Iterator}, space.session? g = some s →
    s.adjacency node direction label folded = .ok walk →
    (Query.around node direction label folded).iterator g space = (.ok it, space') →
    it.Lists space' (walk.map fun x => .edge x.2 (some x.1))
  outDegree : s.phaseDegree node .outgoing = .ok (s.edgesAround edges node .outgoing none).length
  inDegree : s.phaseDegree node .incoming = .ok (s.edgesAround edges node .incoming none).length
  degree : s.degree node = .ok (s.edgesAround edges node .both none).length
  degreeOf : ∀ direction, ∃ degree : String → Nat,
    (∀ label, s.degreeOf node direction label = .ok (degree label)) ∧
    (s.store.labels.toList.map fun x => degree x.2).sum =
      (s.edgesAround edges node direction none).length
  foldedDegree : ∃ walk, s.adjacency node .both none true = .ok walk ∧ s.foldedDegree node =
    .ok (walk.length + (edges.filter fun edge => edge.source = node ∧ edge.target = node).length)
  neighbors : ∀ direction, ∃ found, s.neighbors node direction = .ok found ∧
    FirstOf ((s.edgesAround edges node direction none).map farEnd) found

/-! ### Slots and edges -/

def edgeAlong (s : Session) (x : Phase × Nat) : Option (Phase × Edge) :=
  (s.store.edge? x.2).map (x.1, ·)

def slotsAround (s : Session) (order : List Nat) (n : Nat) (direction : Direction)
    (label : Option String) : List (Phase × Nat) :=
  direction.phases.flatMap fun p =>
    (s.store.course order p n (s.store.labelIds label)).map (p, ·)

theorem Recorded.filterMap_edge? (h : s.Recorded order edges) :
    order.filterMap s.store.edge? = edges := by
  have hsame := congrArg (List.filterMap id) h.edges_eq
  rwa [List.filterMap_map, List.filterMap_map, Function.id_comp, Function.id_comp,
    List.filterMap_some] at hsame

theorem Recorded.filterMap_chain (h : s.Recorded order edges) (hN : s.store.nodes.get? n = some N)
    (p : Phase) (id : Nat) : (order.filter (s.store.onChain p n id)).filterMap s.store.edge? =
      edges.filter (s.store.chainHas p N.node id) := by
  rw [← h.filterMap_edge?, List.filterMap_filter, List.filter_filterMap]
  refine List.filterMap_congr fun i hi => ?_
  cases hedge : s.store.edge? i with
  | none => simp
  | some edge =>
    rw [h.consistent.onChain_iff hN hedge, Option.filter_some]

theorem Recorded.edgesAround_eq (h : s.Recorded order edges) (hN : s.store.nodes.get? n = some N)
    (direction : Direction) (label : Option String) : s.edgesAround edges N.node direction label =
      (s.slotsAround order n direction label).filterMap s.edgeAlong := by
  have hhalf : ∀ p : Phase, ((s.store.labelIds label).flatMap fun id =>
      (edges.filter (s.store.chainHas p N.node id)).map (p, ·)) =
        ((s.store.course order p n (s.store.labelIds label)).map (p, ·)).filterMap s.edgeAlong := by
    intro p
    rw [List.filterMap_map, Store.course, List.filterMap_flatMap]
    congr 1
    funext id
    rw [← h.filterMap_chain hN, List.map_filterMap]
    rfl
  rw [slotsAround, List.filterMap_flatMap, edgesAround]
  exact congrArg (direction.phases.flatMap ·) (funext hhalf)

theorem exists_edge?_of_mem {x : Phase × Nat} (hx : x ∈ s.slotsAround order n direction label) :
    ∃ edge, s.store.edge? x.2 = some edge := by
  obtain ⟨p, _, hmem⟩ := List.mem_flatMap.mp hx
  obtain ⟨i, hi, rfl⟩ := List.mem_map.mp hmem
  obtain ⟨_, e, he, _⟩ := Store.mem_course.mp hi
  exact ⟨e.edge, Store.edge?_eq_some he⟩

theorem Consistent.filter_filterMap_edgeAlong (hs : s.Consistent order) (r : ViewRecord)
    (l : List (Phase × Nat)) : (l.filterMap s.edgeAlong).filter
      (fun x => (s.catalog.edgeSlot? x.2).any (s.recordShowsEdge r)) =
        (l.filter fun x => s.recordShowsEdge r x.2).filterMap s.edgeAlong := by
  have hshown : ∀ x : Phase × Nat, ((s.edgeAlong x).filter fun y =>
      (s.catalog.edgeSlot? y.2).any (s.recordShowsEdge r)) =
        if s.recordShowsEdge r x.2 then s.edgeAlong x else none := by
    rintro ⟨p, i⟩
    rw [edgeAlong]
    cases hedge : s.store.edge? i with
    | none => simp
    | some edge =>
      rw [Option.map_some, Option.filter_some, Catalog.edgeSlot?, hs.edge_home i edge hedge]
      rfl
  rw [List.filter_filterMap, funext hshown, ← List.filterMap_filter]

/-! ### What a walk comes to -/

theorem around_cases (s : Session) (order : List Nat) (n : Nat) (direction : Direction)
    (label : Option String) (folded : Bool) :
    ((AdjacencyCursor.around s.store n direction label folded).done = true ∧
      s.slotsAround order n direction label = []) ∨
    ∃ id, AdjacencyCursor.around s.store n direction label folded =
        .start n direction id folded ∧
      (AdjacencyCursor.start n direction id folded).toCome s.store order [] =
        s.slotsAround order n direction label := by
  unfold AdjacencyCursor.around
  cases label with
  | none => exact .inr ⟨none, rfl, AdjacencyCursor.toCome_start _ _ _ _ _ _⟩
  | some label =>
    simp only
    cases hid : s.store.labels.idOf? label with
    | none =>
      refine .inl ⟨rfl, ?_⟩
      rw [slotsAround, Store.labelIds, hid]
      exact List.flatMap_eq_nil_iff.mpr fun _ _ => rfl
    | some id =>
      refine .inr ⟨some id, rfl, ?_⟩
      rw [AdjacencyCursor.toCome_start, slotsAround, Store.labelIds, hid]
      rfl

theorem Consistent.adjacency_eq (hs : s.Consistent order) (hslot : s.nodeSlot? node = .ok (some n))
    (direction : Direction) (label : Option String) (folded : Bool) :
    s.adjacency node direction label folded =
      .ok (((s.slotsAround order n direction label).filter
        (s.store.shows direction folded)).filterMap s.edgeAlong) := by
  obtain ⟨N, hN, _⟩ := Option.map_eq_some_iff.mp (node?_of_nodeSlot? hslot)
  have hresolve : s.resolveNode node = .ok n := by
    rw [resolveNode, hslot]
    rfl
  rw [adjacency, hresolve, ok_bind]
  refine congrArg Except.ok ?_
  rcases s.around_cases order _ direction label folded with
    ⟨hdone, hnone⟩ | ⟨id, hstart, hahead⟩
  · rw [hnone, Store.walkBound, Nat.mul_succ, collect, AdjacencyCursor.advance, Store.walkBound,
      Nat.mul_succ, AdjacencyCursor.advanceWithin, AdjacencyCursor.step_of_done hdone]
    rfl
  · have hlength := AdjacencyCursor.length_toCome_start_le hs.sound hN direction id folded
    have hshown := (List.length_filter_le (s.store.shows direction folded)
      ((AdjacencyCursor.start n direction id folded).toCome s.store order [])).trans hlength
    have hbound : 2 * s.store.edges.arena.length < s.store.walkBound := by
      rw [Store.walkBound]
      omega
    rw [hstart, collect_eq hs.sound (AdjacencyCursor.along_start hN direction id folded)
      (Nat.lt_of_le_of_lt hlength hbound) (Nat.lt_of_le_of_lt hshown hbound),
      AdjacencyCursor.shown, hahead]
    rfl

theorem Consistent.lists_of_around {shows : Nat → Bool} {space : GraphSpace}
    (hs : s.Consistent order) (it : EdgeIterator) (hslot : s.nodeSlot? node = .ok (some n))
    (hsession : space.session? it.guard.graph = some s)
    (hshows : ∀ slot, it.shows? s slot = some (shows slot))
    (hcursor : it.cursor = .adjacent (.around s.store n direction label folded)) :
    (Iterator.edges it).Lists space
      (((((s.slotsAround order n direction label).filter (s.store.shows direction folded)).filter
        (shows ·.2)).filterMap s.edgeAlong).map fun x => .edge x.2 (some x.1)) := by
  obtain ⟨N, hN, _⟩ := Option.map_eq_some_iff.mp (node?_of_nodeSlot? hslot)
  have hitem : ∀ x, (s.edgeAlong x).map (fun x => Item.edge x.2 (some x.1)) =
      EdgeIterator.itemAt s x := by
    intro x
    rw [edgeAlong, EdgeIterator.itemAt, Option.map_map]
    rfl
  rw [List.map_filterMap, funext hitem]
  rcases s.around_cases order n direction label folded with
    ⟨hdone, hnone⟩ | ⟨id, hstart, hahead⟩
  · have hover : (Iterator.edges it).next space = (none, .edges it) := by
      rw [EdgeIterator.next_edges_of_seek it hsession, EdgeIterator.seek_of_done hcursor hdone]
      rfl
    rw [hnone]
    exact Iterator.lists_nil hover hover
  · have hlength := AdjacencyCursor.length_toCome_start_le hs.sound hN direction id folded
    have hbound : 2 * s.store.edges.arena.length < s.store.walkBound := by
      rw [Store.walkBound]
      omega
    have hshown : (AdjacencyCursor.start n direction id folded).shown s.store order [] =
        (s.slotsAround order n direction label).filter (s.store.shows direction folded) := by
      rw [AdjacencyCursor.shown, hahead]
      rfl
    rw [hstart] at hcursor
    rw [← hshown]
    exact EdgeIterator.lists_of_adjacent hsession hs.sound hshows hcursor
      (AdjacencyCursor.along_start hN direction id folded) (Nat.lt_of_le_of_lt hlength hbound)

theorem Consistent.lists_around (hs : s.Consistent order)
    (hslot : s.nodeSlot? node = .ok (some n)) {g : Graph} {space space' : GraphSpace} {it : Iterator}
    (hspace : space.session? g = some s)
    (hopened : (Query.around node direction label folded).iterator g space = (.ok it, space')) :
    it.Lists space' ((((s.slotsAround order n direction label).filter
      (s.store.shows direction folded)).filterMap s.edgeAlong).map
        fun x => .edge x.2 (some x.1)) := by
  obtain ⟨start, hmade, rfl⟩ := GraphSpace.exists_of_map hopened
  obtain ⟨guard, slot, htake, rfl, hresolve⟩ := EdgeIterator.exists_of_startAround hspace hmade
  obtain rfl : slot = n := by
    rw [resolveNode, hslot] at hresolve
    exact (Except.ok.inj hresolve).symm
  have hsession := GraphSpace.session?_of_take hspace htake
  have hlists := hs.lists_of_around
    { guard, cursor := .adjacent (.around s.store slot direction label folded) } hslot hsession
    (EdgeIterator.shows?_of_none rfl) rfl
  rwa [List.filter_true] at hlists

theorem filter_shows_false (s : Session) (direction : Direction) (l : List (Phase × Nat)) :
    l.filter (s.store.shows direction false) = l :=
  List.filter_eq_self.mpr fun _ _ => rfl

/-! ### What a folded walk passes over -/

theorem Consistent.runsUp_iff (hs : s.Consistent order) (hi : s.store.plain? i = some e) :
    s.RunsUp e.edge ↔ e.source < e.target := by
  have hsource := hs.nodeSlot?_eq (hs.sound.node_of_end i e .outgoing hi)
  have htarget := hs.nodeSlot?_eq (hs.sound.node_of_end i e .incoming hi)
  change s.nodeSlot? e.edge.source = .ok (some e.source) at hsource
  change s.nodeSlot? e.edge.target = .ok (some e.target) at htarget
  rw [RunsUp, hsource, htarget]
  simp

theorem Consistent.isLoop_iff (hs : s.Consistent order) (hi : s.store.plain? i = some e) :
    e.isLoop = true ↔ e.edge.source = e.edge.target := by
  rw [EdgeSlot.isLoop, beq_iff_eq]
  exact hs.end_eq_iff (p := .outgoing) (q := .incoming) hi hi

theorem Consistent.shows_iff (hs : s.Consistent order) (hi : s.store.plain? i = some e) :
    s.store.shows direction true (p, i) = true ↔ ¬ s.PassesOver direction (p, e.edge) := by
  obtain ⟨x, hx, rfl⟩ := Option.map_eq_some_iff.mp hi
  have hpaired := hs.isMutual_iff_isPaired hi
  have hloop := hs.isLoop_iff hi
  rw [PassesOver, ← hpaired, hs.runsUp_iff hi, ← hloop, Store.shows, hx, Option.any_some]
  change (false || (x.unlinked).isShownFolded p (direction == .both)) = true ↔ _
  rw [Bool.false_or, EdgeSlot.isShownFolded]
  have hends : x.unlinked.isLoop = true ↔ x.unlinked.source = x.unlinked.target := beq_iff_eq
  by_cases hself : x.unlinked.isLoop = true
  · have hnot : x.unlinked.isMutual ≠ true :=
      fun hmutual => (hpaired.mp hmutual).2.1 (hloop.mp hself)
    rw [if_pos hself]
    simpa [hself, hnot] using imp_iff_not_or.symm
  · rw [if_neg hself]
    rw [hends] at hself
    by_cases hmutual : x.unlinked.isMutual = true
    · rw [if_pos hmutual, decide_eq_true_iff]
      simp only [hmutual, hends, hself, true_and, and_false, or_false]
      omega
    · rw [if_neg hmutual]
      simp [hmutual, hends, hself]

open Classical in
theorem Consistent.filterMap_shown (hs : s.Consistent order) (l : List (Phase × Nat)) :
    (l.filter (s.store.shows direction true)).filterMap s.edgeAlong =
      (l.filterMap s.edgeAlong).filter fun x => ¬ s.PassesOver direction x := by
  rw [List.filterMap_filter, List.filter_filterMap]
  refine List.filterMap_congr fun x _ => ?_
  obtain ⟨p, i⟩ := x
  have hedge : s.store.edge? i = (s.store.plain? i).map (·.edge) := by
    rw [Store.edge?_eq, Store.fixed?_eq, Option.map_map]
    rfl
  rw [edgeAlong, hedge]
  cases hi : s.store.plain? i with
  | none => simp
  | some e =>
    have hshows : s.store.shows direction true (p, i) = true ↔ ¬ s.PassesOver direction (p, e.edge) :=
      hs.shows_iff hi
    rw [Option.map_some, Option.map_some, Option.filter_some]
    by_cases hpassed : s.PassesOver direction (p, e.edge) <;> simp [hshows, hpassed]

/-! ### How long the walks are -/

section Lengths

open Store

variable {P Q : EdgeSlot → Bool}

theorem tally_eq_add (s : Store) (order : List Nat) (P Q : EdgeSlot → Bool) :
    s.tally order P =
      s.tally order (fun e => P e && Q e) + s.tally order (fun e => P e && !Q e) := by
  unfold Store.tally
  induction order with
  | nil => rfl
  | cons i rest ih =>
    rw [List.countP_cons, List.countP_cons, List.countP_cons, ih]
    cases hi : s.plain? i with
    | none => simp
    | some e => cases hP : P e <;> cases hQ : Q e <;> simp [hP, hQ] <;> omega

theorem tally_test_congr {s : Store} {order : List Nat}
    (h : ∀ i e, s.plain? i = some e → P e = Q e) : s.tally order P = s.tally order Q := by
  refine List.countP_congr fun i _ => ?_
  cases hi : s.plain? i with
  | none => simp
  | some e => rw [Option.any_some, Option.any_some, h i e hi]

theorem Consistent.perm_course (hs : s.Consistent order) (p : Phase) (n : Nat) :
    (s.store.course order p n (s.store.labelIds none)).Perm
      (order.filter fun i => (s.store.plain? i).any (·.endsAt p n)) := by
  have hnodup : (s.store.labelIds none).Nodup := hs.sound.labels_sound.valid.toLaid.nodup_slots
  refine (List.perm_ext_iff_of_nodup (nodup_course hs.sound.nodup hnodup)
    (hs.sound.nodup.filter _)).mpr fun i => ?_
  rw [mem_course, List.mem_filter]
  refine and_congr_right fun _ => ?_
  rw [plain?, Option.any_map, Option.any_eq_true]
  refine exists_congr fun e => and_congr_right fun he => ?_
  have hlabel := hs.sound.label_of i e.unlinked (Sound.plain?_eq_some he)
  have hregistered : e.label ∈ s.store.labelIds none :=
    hs.sound.labels_sound.valid.toLaid.mem_slots.mpr (Option.isSome_of_eq_some hlabel)
  simp only [hregistered, and_true]
  exact beq_iff_eq.symm

theorem Consistent.countP_course (hs : s.Consistent order) (P : EdgeSlot → Bool) (p : Phase) (n : Nat) :
    (s.store.course order p n (s.store.labelIds none)).countP (fun i => (s.store.plain? i).any P) =
      s.store.tally order fun e => e.endsAt p n && P e := by
  rw [(hs.perm_course p n).countP_eq, List.countP_filter, Store.tally]
  refine List.countP_congr fun i _ => ?_
  cases s.store.plain? i with
  | none => simp
  | some e => simp [Bool.and_comm]

theorem length_filterMap_slotsAround (s : Session) (order : List Nat) (n : Nat)
    (direction : Direction) (label : Option String) (Q : Phase × Nat → Bool) :
    (((s.slotsAround order n direction label).filter Q).filterMap s.edgeAlong).length =
      (direction.phases.map fun p =>
        (s.store.course order p n (s.store.labelIds label)).countP fun i => Q (p, i)).sum := by
  have hall : ∀ x ∈ (s.slotsAround order n direction label).filter Q,
      (s.edgeAlong x).isSome = true := by
    intro x hx
    obtain ⟨edge, hedge⟩ := exists_edge?_of_mem (List.mem_of_mem_filter hx)
    rw [edgeAlong, hedge]
    rfl
  rw [List.length_filterMap_eq_countP, List.countP_eq_length.mpr hall, ← List.countP_eq_length_filter,
    slotsAround, List.countP_flatMap]
  congr 2
  funext p
  exact List.countP_map

theorem Consistent.length_course (hs : s.Consistent order) (hN : s.store.nodes.get? n = some N)
    (p : Phase) : (s.store.course order p n (s.store.labelIds none)).countP (fun _ => true) =
      N.degrees.get p := by
  have hcount := hs.countP_course (fun _ => true) p n
  rw [hs.sound.degreed p n N hN, tally_test_congr fun _ e _ => (Bool.and_true (e.endsAt p n)).symm,
    ← hcount]
  refine List.countP_congr fun i hi => ?_
  obtain ⟨_, e, he, _⟩ := mem_course.mp hi
  simp [Sound.plain?_eq_some he]

theorem Recorded.length_edgesAround (h : s.Recorded order edges)
    (hN : s.store.nodes.get? n = some N) (direction : Direction) :
    (s.edgesAround edges N.node direction none).length = (direction.phases.map N.degrees.get).sum := by
  rw [h.edgesAround_eq hN, ← s.filter_shows_false direction (s.slotsAround order n direction none),
    length_filterMap_slotsAround]
  congr 2
  funext p
  exact h.consistent.length_course hN p

/-- Of the mutual pairs at a node, as many come in on a half that runs up as go out on one that runs
down. -/
theorem Consistent.tally_back (hs : s.Consistent order) (n : Nat) :
    s.store.tally order (fun e => e.endsAt .incoming n && e.isMutual && !decide (e.target < e.source)) =
      s.store.tally order (fun e => e.isMutualFrom n && decide (e.target < e.source)) := by
  have hout : ∀ {e : EdgeSlot}, (e.isMutualFrom n && decide (e.target < e.source)) = true ↔
      e.isMutual = true ∧ e.source = n ∧ e.target < e.source := by
    intro e
    rw [EdgeSlot.isMutualFrom, Bool.and_eq_true, Bool.and_eq_true, decide_eq_true_iff, beq_iff_eq,
      and_assoc]
  have hin : ∀ {e : EdgeSlot},
      (e.endsAt .incoming n && e.isMutual && !decide (e.target < e.source)) = true ↔
        e.target = n ∧ e.isMutual = true ∧ ¬ e.target < e.source := by
    intro e
    rw [EdgeSlot.endsAt, Bool.and_eq_true, Bool.and_eq_true, Bool.not_eq_true', decide_eq_false_iff_not,
      beq_iff_eq, and_assoc]
    rfl
  have hcount : (s.store.tally order
      (fun e => e.isMutualFrom n && decide (e.target < e.source)) : ℕ∞) =
        {x : Node × Node × String | ∃ i e, s.store.plain? i = some e ∧
          (e.isMutualFrom n && decide (e.target < e.source)) = true ∧
            (e.edge.source, e.edge.target, e.edge.label) = x}.encard := by
    refine hs.tally_eq_encard (fun i j e f hi hj _ _ heq => ?_) fun x => Iff.rfl
    simp only [Prod.mk.injEq] at heq
    exact hs.slot_eq_of_parallel hi hj heq.1 heq.2.1 heq.2.2
  rw [← ENat.natCast_inj, hcount]
  refine hs.tally_eq_encard (v := fun e => (e.edge.target, e.edge.source, e.edge.label))
    (fun i j e f hi hj _ _ heq => ?_) fun x => ⟨?_, ?_⟩
  · simp only [Prod.mk.injEq] at heq
    exact hs.slot_eq_of_parallel hi hj heq.2.1 heq.1 heq.2.2
  · rintro ⟨i, e, hi, he, rfl⟩
    obtain ⟨hmutual, rfl, hlt⟩ := hout.mp he
    obtain ⟨j, f, hj, hmutual', hsource, htarget, hback⟩ := hs.exists_back hi hmutual
    refine ⟨j, f, hj, hin.mpr ⟨htarget, hmutual', by omega⟩, ?_⟩
    simp only [Prod.mk.injEq] at hback ⊢
    exact ⟨hback.2.1, hback.1, hback.2.2⟩
  · rintro ⟨i, e, hi, he, rfl⟩
    obtain ⟨rfl, hmutual, hnot⟩ := hin.mp he
    obtain ⟨j, f, hj, hmutual', hsource, htarget, hback⟩ := hs.exists_back hi hmutual
    have hne : e.source ≠ e.target := fun h =>
      ((hs.isMutual_iff hi).mp hmutual).1
        ((hs.end_eq_iff (p := .outgoing) (q := .incoming) hi hi).mp h)
    exact ⟨j, f, hj, hout.mpr ⟨hmutual', hsource, by omega⟩, hback⟩

/-- Of the edges at a node, a folded walk both ways passes over one for every mutual pair and one for
every loop. -/
theorem Consistent.tally_folded (hs : s.Consistent order) (n : Nat) :
    s.store.tally order (fun e => e.endsAt .outgoing n && e.isShownFolded .outgoing true) +
        s.store.tally order (fun e => e.endsAt .incoming n && e.isShownFolded .incoming true) +
        s.store.tally order (fun e => e.endsAt .incoming n && e.isLoop) +
        s.store.tally order (·.isMutualFrom n) =
      s.store.tally order (·.endsAt .outgoing n) + s.store.tally order (·.endsAt .incoming n) := by
  have hflag : ∀ {i e}, s.store.plain? i = some e → e.isMutual = true → e.isLoop = false := by
    intro i e hi hmutual
    rw [Bool.eq_false_iff]
    exact fun hloop => ((hs.isMutual_iff hi).mp hmutual).1 ((hs.isLoop_iff hi).mp hloop)
  have hout := tally_eq_add s.store order (·.endsAt .outgoing n) (·.isShownFolded .outgoing true)
  have hin := tally_eq_add s.store order (·.endsAt .incoming n) (·.isShownFolded .incoming true)
  have hmutual := tally_eq_add s.store order (·.isMutualFrom n) (fun e => decide (e.target < e.source))
  have hloops := tally_eq_add s.store order
    (fun e => e.endsAt .incoming n && !e.isShownFolded .incoming true) (·.isLoop)
  -- what is passed over on the way out runs up, and so does what is passed over on the way in, but
  -- for the loops
  have houtHidden : s.store.tally order
      (fun e => e.endsAt .outgoing n && !e.isShownFolded .outgoing true) =
        s.store.tally order (fun e => e.isMutualFrom n && !decide (e.target < e.source)) := by
    refine tally_test_congr fun i e hi => ?_
    have hloop := hflag hi
    change (e.source == n && !e.isShownFolded .outgoing true) = (e.isMutual && e.source == n && _)
    rw [EdgeSlot.isShownFolded]
    cases hm : e.isMutual <;> cases hl : e.isLoop <;> simp_all
  have hinHidden : s.store.tally order
      (fun e => (e.endsAt .incoming n && !e.isShownFolded .incoming true) && !e.isLoop) =
        s.store.tally order
          (fun e => e.endsAt .incoming n && e.isMutual && !decide (e.target < e.source)) := by
    refine tally_test_congr fun i e hi => ?_
    have hloop := hflag hi
    rw [EdgeSlot.isShownFolded]
    cases hm : e.isMutual <;> cases hl : e.isLoop <;> simp_all
  have hinLoops : s.store.tally order
      (fun e => (e.endsAt .incoming n && !e.isShownFolded .incoming true) && e.isLoop) =
        s.store.tally order (fun e => e.endsAt .incoming n && e.isLoop) := by
    refine tally_test_congr fun i e _ => ?_
    rw [EdgeSlot.isShownFolded]
    cases hl : e.isLoop <;> simp
  have hback := hs.tally_back n
  omega

theorem Recorded.countP_edges (h : s.Recorded order edges) (P : Edge → Bool) :
    edges.countP P = s.store.tally order fun e => P e.edge := by
  rw [← h.filterMap_edge?, List.countP_filterMap, Store.tally]
  refine List.countP_congr fun i _ => ?_
  rw [Store.edge?_eq, Store.fixed?_eq]
  cases s.store.plain? i <;> simp [EdgeSlot.fixed]

theorem Consistent.sum_length_edgesAround (hs : s.Consistent order) (edges : List Edge) (node : Node)
    (direction : Direction) : (s.store.labels.toList.map fun x =>
      (s.edgesAround edges node direction (some x.2)).length).sum =
        (s.edgesAround edges node direction none).length := by
  have hone : ∀ x ∈ s.store.labels.toList, (s.edgesAround edges node direction (some x.2)).length =
      (direction.phases.map fun p => (edges.filter (s.store.chainHas p node x.1)).length).sum := by
    intro x hx
    have hlabels := hs.sound.labels_sound
    have hid : s.store.labels.idOf? x.2 = some x.1 :=
      (hlabels.ids_iff x.2 x.1).mpr (hlabels.valid.toLaid.mem_toList.mp hx)
    rw [edgesAround, Store.labelIds, hid, Option.toList_some, List.length_flatMap]
    congr 2
    funext p
    rw [List.flatMap_singleton, List.length_map]
  have hall : (s.edgesAround edges node direction none).length = (direction.phases.map fun p =>
      (s.store.labels.toList.map fun x =>
        (edges.filter (s.store.chainHas p node x.1)).length).sum).sum := by
    rw [edgesAround, Store.labelIds, List.length_flatMap]
    congr 2
    funext p
    rw [List.length_flatMap, List.map_map]
    congr 2
    funext x
    exact List.length_map _
  rw [List.map_congr_left hone, hall]
  cases direction with
  | outgoing => simp [Direction.phases]
  | incoming => simp [Direction.phases]
  | both => simp [Direction.phases, List.sum_map_add]

theorem Consistent.isLoop_at_iff (hs : s.Consistent order) (hnode : s.store.node? n = some node)
    (hi : s.store.plain? i = some e) : (e.endsAt .incoming n && e.isLoop) = true ↔
      e.edge.source = node ∧ e.edge.target = node := by
  have htarget : e.endsAt .incoming n = true ↔ e.edge.target = node := hs.endsAt_iff hnode hi
  rw [Bool.and_eq_true, htarget, hs.isLoop_iff hi]
  constructor
  · rintro ⟨htarget, hloop⟩
    exact ⟨hloop.trans htarget, htarget⟩
  · rintro ⟨hsource, htarget⟩
    exact ⟨htarget, hsource.trans htarget.symm⟩

theorem Recorded.length_folded (h : s.Recorded order edges) (hN : s.store.nodes.get? n = some N) :
    (((s.slotsAround order n .both none).filter (s.store.shows .both true)).filterMap
        s.edgeAlong).length +
      (edges.filter fun edge => edge.source = N.node ∧ edge.target = N.node).length =
        N.degree - N.mutualDegree := by
  have hs := h.consistent
  have hhalf : ∀ p : Phase, (s.store.course order p n (s.store.labelIds none)).countP
      (fun i => s.store.shows .both true (p, i)) =
        s.store.tally order fun e => e.endsAt p n && e.isShownFolded p true := by
    intro p
    rw [← hs.countP_course]
    refine List.countP_congr fun i _ => ?_
    rw [Store.shows, plain?, Option.any_map]
    rfl
  have hnode : s.store.node? n = some N.node := Store.node?_eq_some hN
  have hloops : (edges.filter fun edge => edge.source = N.node ∧ edge.target = N.node).length =
      s.store.tally order fun e => e.endsAt .incoming n && e.isLoop := by
    rw [← List.countP_eq_length_filter, h.countP_edges]
    refine tally_test_congr fun i e hi => ?_
    rw [Bool.eq_iff_iff, hs.isLoop_at_iff hnode hi, decide_eq_true_iff]
  have hout := hs.sound.degreed .outgoing n N hN
  have hin := hs.sound.degreed .incoming n N hN
  have hmutual := hs.sound.paired.mutualDegree n N hN
  have htotal := hs.tally_folded n
  change N.degrees.outgoing = _ at hout
  change N.degrees.incoming = _ at hin
  rw [length_filterMap_slotsAround, Direction.phases, List.map_cons, List.map_singleton,
    List.sum_cons, List.sum_singleton, hhalf, hhalf, hloops, NodeSlot.degree]
  omega

end Lengths

theorem filterMap_otherNode? (s : Session) (edges : List Edge) (node : Node)
    (direction : Direction) (label : Option String) :
    ((s.edgesAround edges node direction label).filterMap fun x => x.2.otherNode? node) =
      (s.edgesAround edges node direction label).map farEnd := by
  rw [← List.filterMap_eq_map]
  refine List.filterMap_congr fun x hx => ?_
  obtain ⟨p, _, hhalf⟩ := List.mem_flatMap.mp hx
  obtain ⟨id, _, hchain⟩ := List.mem_flatMap.mp hhalf
  obtain ⟨edge, hedge, rfl⟩ := List.mem_map.mp hchain
  have hhas := List.of_mem_filter hedge
  rw [Store.chainHas, decide_eq_true_iff] at hhas
  have hend : edge.node p.role = node := hhas.1
  change edge.otherNode? node = some (farEnd (p, edge))
  rw [Edge.otherNode?]
  cases p with
  | outgoing =>
    have hsource : node = edge.source := hend.symm
    rw [if_pos hsource]
    rfl
  | incoming =>
    have htarget : node = edge.target := hend.symm
    by_cases hloop : node = edge.source
    · rw [if_pos hloop, ← htarget, hloop]
      rfl
    · rw [if_neg hloop, if_pos htarget]
      rfl

/-! ### All of it together -/

theorem Recorded.walksExactly (h : s.Recorded order edges) (hnode : s.containsNode node = true) :
    s.WalksExactly edges node := by
  have hs := h.consistent
  obtain ⟨n, hslot⟩ := containsNode_iff_nodeSlot?.mp hnode
  obtain ⟨N, hN, rfl⟩ := Option.map_eq_some_iff.mp (node?_of_nodeSlot? hslot)
  have hrecord : s.nodeRecord N.node = .ok N := by
    rw [nodeRecord, resolveNode, hslot, ok_bind]
    simp only [pure_bind, hN]
    rfl
  have hplain : ∀ direction label, s.adjacency N.node direction label false =
      .ok (s.edgesAround edges N.node direction label) := by
    intro direction label
    rw [hs.adjacency_eq hslot, filter_shows_false, h.edgesAround_eq hN]
  have hdegree : ∀ p : Phase, s.phaseDegree N.node p = .ok (N.degrees.get p) := by
    intro p
    rw [phaseDegree, hrecord]
    rfl
  constructor
  case increasing => exact hs.sound.labels_sound.valid.toLaid.pairwise_lt_slots
  case plain => exact hplain
  case folded =>
    intro direction label
    rw [hs.adjacency_eq hslot, hs.filterMap_shown, h.edgesAround_eq hN]
  case lists =>
    intro direction label folded walk g space space' it hspace hwalk hopened
    rw [hs.adjacency_eq hslot, Except.ok.injEq] at hwalk
    rw [← hwalk]
    exact hs.lists_around hslot hspace hopened
  case outDegree | inDegree =>
    rw [hdegree, h.length_edgesAround hN]
    rfl
  case degree =>
    rw [Session.degree, hrecord, h.length_edgesAround hN]
    rfl
  case degreeOf =>
    intro direction
    refine ⟨fun label => (s.edgesAround edges N.node direction (some label)).length,
      fun label => ?_, hs.sum_length_edgesAround edges N.node direction⟩
    rw [Session.degreeOf, hplain]
    rfl
  case foldedDegree =>
    refine ⟨_, hs.adjacency_eq hslot .both none true, ?_⟩
    rw [h.length_folded hN, Session.foldedDegree, hrecord]
    rfl
  case neighbors =>
    intro direction
    refine ⟨_, ?_, firstOf_firstOccurrences _⟩
    rw [Session.neighbors, hplain, ok_bind, ← filterMap_otherNode?]
    rfl

theorem History.walks_around (h : History s edges) (hnode : s.containsNode node = true) :
    s.WalksExactly edges node := by
  obtain ⟨order, hrecorded⟩ := h.recorded
  exact hrecorded.walksExactly hnode

theorem walks_around_sampleStore : sampleStore.containsNode nodeA = true ∧
    sampleStore.WalksExactly [loopA, edgeAB, edgeBA] nodeA :=
  ⟨containsNode_sampleStore, history_sampleStore.walks_around containsNode_sampleStore⟩

end Session

end PropertyGraph

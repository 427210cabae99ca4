import PropertyGraph.Proofs.Admission
import PropertyGraph.Proofs.Counters
import PropertyGraph.Proofs.Walks.Listings

/-!
# The folded walk over all edges

A folded walk shows a mutual pair once: of its two halves it passes over the one that runs up to the
higher slot. Whether an edge is half of a pair it reads off a flag, and which of the halves it is off
the slots that are stored with the edge. Both are what they stand for in every store, so the walk
comes to as many edges as there are when a pair counts once.
-/

namespace PropertyGraph

variable {s : Session} {order : List Nat} {edges : List Edge} {edge : Edge} {folded : Bool}
  {i position : Nat} {e : EdgeSlot}

/-! ### What the walk has ahead of it -/

theorem filter_le_eq_cons {l : List Nat} (hsorted : l.Pairwise (· < ·)) (hmem : i ∈ l)
    (hle : position ≤ i) (hfirst : ∀ j ∈ l, position ≤ j → i ≤ j) :
    l.filter (position ≤ ·) = i :: l.filter (i + 1 ≤ ·) := by
  induction l with
  | nil => cases hmem
  | cons x rest ih =>
    obtain ⟨hlt, hsorted⟩ := List.pairwise_cons.mp hsorted
    rcases List.mem_cons.mp hmem with rfl | hmem
    · have hrest : ∀ j ∈ rest, decide (position ≤ j) = decide (i + 1 ≤ j) := by
        intro j hj
        have hij := hlt j hj
        rw [decide_eq_decide]
        omega
      rw [List.filter_cons_of_pos (by simpa using hle), List.filter_cons_of_neg (by simp),
        List.filter_congr hrest]
    · have hx : ¬ position ≤ x := by
        intro hx
        have hxi := hlt i hmem
        have hix := hfirst x List.mem_cons_self hx
        omega
      have hx' : ¬ i + 1 ≤ x := by
        have hxi := hlt i hmem
        omega
      rw [List.filter_cons_of_neg (by simpa using hx), List.filter_cons_of_neg (by simpa using hx')]
      exact ih hsorted hmem fun j hj => hfirst j (List.mem_cons_of_mem x hj)

namespace Arena

variable {α : Type} {a : Arena α}

namespace Laid

theorem slots_from_of_nextLive? (h : a.Laid) (hslot : a.nextLive? position = some i) :
    a.slots.filter (position ≤ ·) = i :: a.slots.filter (i + 1 ≤ ·) := by
  obtain ⟨hle, hlive, hfree⟩ := nextLive?_eq_some_iff.mp hslot
  refine filter_le_eq_cons h.pairwise_lt_slots (h.mem_slots.mpr hlive) hle fun j hj hge => ?_
  by_contra hlt
  have hlive' := h.mem_slots.mp hj
  rw [hfree j hge (Nat.lt_of_not_le hlt)] at hlive'
  cases hlive'

theorem slots_from_eq_nil (h : a.Laid) (hnone : a.nextLive? position = none) :
    a.slots.filter (position ≤ ·) = [] := by
  refine List.filter_eq_nil_iff.mpr fun j hj hge => ?_
  have hlive := h.mem_slots.mp hj
  rw [get?_eq_none_of_nextLive? hnone (of_decide_eq_true hge)] at hlive
  cases hlive

end Laid

end Arena

namespace Store

/-- The slots that a walk shows from a position on. -/
def shownFrom (s : Store) (folded : Bool) (position : Nat) : List Nat :=
  (s.edges.slots.filter (position ≤ ·)).filter (s.showsEdge · folded)

variable {s : Store}

theorem nextShown_of_valid (h : s.edges.arena.Valid) (folded : Bool) (position : Nat) :
    (∃ stop, s.nextShown folded position = (none, stop) ∧
      s.nextShown folded stop = (none, stop) ∧ s.shownFrom folded position = []) ∨
    ∃ slot, s.nextShown folded position = (some slot, slot + 1) ∧ (s.edge? slot).isSome ∧
      slot :: s.edges.slots.filter (slot + 1 ≤ ·) <:+ s.edges.slots.filter (position ≤ ·) ∧
      s.shownFrom folded position = slot :: s.shownFrom folded (slot + 1) := by
  have hpassed : ∀ {position slot}, s.edges.arena.nextLive? position = some slot →
      s.edges.slots.filter (position ≤ ·) = slot :: s.edges.slots.filter (slot + 1 ≤ ·) :=
    h.toLaid.slots_from_of_nextLive?
  fun_induction s.nextShown folded position with
  | case1 position hnone =>
    have hend : s.nextShown folded position = (none, position) := by
      rw [nextShown]
      split
      · rfl
      · next slot hslot =>
        rw [hnone] at hslot
        cases hslot
    have hover : s.edges.slots.filter (position ≤ ·) = [] := h.toLaid.slots_from_eq_nil hnone
    exact .inl ⟨position, rfl, hend, by rw [shownFrom, hover, List.filter_nil]⟩
  | case2 position slot hslot hshown =>
    refine .inr ⟨slot, rfl, ?_, hpassed hslot ▸ List.suffix_rfl, ?_⟩
    · rw [edge?, Option.isSome_map]
      exact (Arena.nextLive?_eq_some_iff.mp hslot).2.1
    · rw [shownFrom, hpassed hslot, List.filter_cons_of_pos (p := (s.showsEdge · folded)) hshown,
        shownFrom]
  | case3 position slot hslot hhidden ih =>
    rw [shownFrom, hpassed hslot, List.filter_cons_of_neg (p := (s.showsEdge · folded)) hhidden]
    rcases ih with hend | ⟨found, hfound, hlive, hsuffix, hahead⟩
    · exact .inl hend
    · exact .inr ⟨found, hfound, hlive, hsuffix.trans (List.suffix_cons slot _), hahead⟩

theorem shownFrom_zero (s : Store) (folded : Bool) :
    s.shownFrom folded 0 = s.edges.slots.filter (s.showsEdge · folded) := by
  rw [shownFrom, List.filter_eq_self.mpr fun i _ => decide_eq_true (Nat.zero_le i)]

end Store

namespace EdgeIterator

variable {it : EdgeIterator}

theorem seek_cases_of_arena (h : s.store.edges.arena.Valid) (hfilter : it.filter = none)
    (hcursor : it.cursor = .arena position folded) :
    (∃ stop, it.seek s = (none, { it with cursor := .arena stop folded }) ∧
      { it with cursor := .arena stop folded }.seek s =
        (none, { it with cursor := .arena stop folded }) ∧
      s.store.shownFrom folded position = []) ∨
    ∃ slot edge, s.store.edge? slot = some edge ∧
      it.seek s = (some edge, { it with
        cursor := .arena (slot + 1) folded, current := some edge, phase := some .outgoing }) ∧
      slot :: s.store.edges.slots.filter (slot + 1 ≤ ·) <:+
        s.store.edges.slots.filter (position ≤ ·) ∧
      s.store.shownFrom folded position = slot :: s.store.shownFrom folded (slot + 1) := by
  rcases s.store.nextShown_of_valid h folded position with
    ⟨stop, hnone, hstays, hempty⟩ | ⟨slot, hslot, hlive, hsuffix, hahead⟩
  · refine .inl ⟨stop, ?_, ?_, hempty⟩
    · rw [seek, Store.walkBound, Nat.mul_succ, seekWithin, hcursor, EdgeCursor.advance, hnone]
      rfl
    · rw [seek, Store.walkBound, Nat.mul_succ, seekWithin, EdgeCursor.advance, hstays]
      rfl
  · obtain ⟨edge, hedge⟩ := Option.isSome_iff_exists.mp hlive
    refine .inr ⟨slot, edge, hedge, ?_, hsuffix, hahead⟩
    rw [seek, Store.walkBound, Nat.mul_succ, seekWithin, hcursor, EdgeCursor.advance, hslot]
    simp only [Option.map_some, hedge, shows?, hfilter]

theorem next_edges_of_seek {space : GraphSpace} (it : EdgeIterator)
    (hs : space.session? it.guard.graph = some s) : (Iterator.edges it).next space =
      ((it.seek s).1.map (.edge · (it.seek s).2.phase), .edges (it.seek s).2) := by
  rw [Iterator.next_edges, next, hs]

theorem lists_of_arena {space : GraphSpace} (hs : space.session? it.guard.graph = some s)
    (h : s.store.edges.arena.Valid) (hfilter : it.filter = none)
    (hcursor : it.cursor = .arena position folded) :
    (Iterator.edges it).Lists space
      (((s.store.shownFrom folded position).filterMap s.store.edge?).map
        (.edge · (some .outgoing))) := by
  induction hahead : s.store.shownFrom folded position generalizing it position with
  | nil =>
    rcases seek_cases_of_arena h hfilter hcursor with
      ⟨stop, hnone, hstays, _⟩ | ⟨slot, edge, _, _, _, hcons⟩
    · have hover := next_edges_of_seek it hs
      rw [hnone, Option.map_none] at hover
      have hstill := next_edges_of_seek { it with cursor := .arena stop folded } hs
      rw [hstays, Option.map_none] at hstill
      exact Iterator.lists_nil hover hstill
    · rw [hahead] at hcons
      cases hcons
  | cons slot rest ih =>
    rcases seek_cases_of_arena h hfilter hcursor with
      ⟨stop, _, _, hnil⟩ | ⟨found, edge, hedge, hsome, _, hcons⟩
    · rw [hahead] at hnil
      cases hnil
    · rw [hahead, List.cons.injEq] at hcons
      obtain ⟨rfl, hrest⟩ := hcons
      have hnext := next_edges_of_seek it hs
      rw [hsome, Option.map_some] at hnext
      rw [List.filterMap_cons_some hedge, List.map_cons]
      exact Iterator.Lists.cons hnext (ih hs hfilter rfl hrest.symm)

end EdgeIterator

namespace Session

/-! ### What the walk shows -/

/-- The edge is directed and no loop, and a stored directed edge with its label runs back. -/
def IsPaired (s : Session) (edge : Edge) : Prop :=
  edge.directed = true ∧ edge.source ≠ edge.target ∧ s.Joins edge.target edge.source edge.label

def RunsDown (s : Session) (edge : Edge) : Prop :=
  ∃ n m, s.nodeSlot? edge.source = .ok (some n) ∧ s.nodeSlot? edge.target = .ok (some m) ∧ m < n

/-- The flags tell the halves of mutual pairs, and the folded walk comes to the edges in the order of
their slots, to all but the halves that do not run down. -/
structure Folds (s : Session) : Prop where
  isMutual_iff : ∀ i e, s.store.edges.get? i = some e → (e.isMutual = true ↔ s.IsPaired e.edge)
  mem_iff : ∀ edge, edge ∈ s.edgesInOrder true ↔
    s.containsEdge edge = true ∧ (s.IsPaired edge → s.RunsDown edge)
  ordered : (s.edgesInOrder true).Pairwise fun edge edge' => ∃ i j,
    s.edgeSlot? edge = .ok (some i) ∧ s.edgeSlot? edge' = .ok (some j) ∧ i < j
  length_eq : (s.edgesInOrder true).length = s.foldedEdgeCount
  lists : ∀ {g : Graph} {space space' : GraphSpace} {it : Iterator}, space.session? g = some s →
    (Query.edges true).iterator g space = (.ok it, space') →
    it.Lists space' ((s.edgesInOrder true).map (.edge · (some .outgoing)))

namespace Consistent

theorem isMutual_iff_isPaired (hs : s.Consistent order) (hi : s.store.plain? i = some e) :
    e.isMutual = true ↔ s.IsPaired e.edge := by
  rw [hs.isMutual_iff hi, IsPaired]
  constructor
  · rintro ⟨hne, ⟨edge, hedge, hdirected, hsource, htarget, hlabel⟩, hback⟩
    -- The edge that runs alike is the edge itself.
    obtain ⟨j, f, hj, rfl⟩ := hs.containsEdge_iff_plain?.mp hedge
    obtain rfl := hs.slot_eq_of_parallel hj hi hsource htarget hlabel
    rw [hi, Option.some.injEq] at hj
    exact ⟨hj ▸ hdirected, hne, hback⟩
  · rintro ⟨hdirected, hne, hback⟩
    exact ⟨hne, ⟨e.edge, hs.containsEdge_of_plain? hi, hdirected, rfl, rfl, rfl⟩, hback⟩

theorem runsDown_iff (hs : s.Consistent order) (hi : s.store.plain? i = some e) :
    s.RunsDown e.edge ↔ e.target < e.source := by
  have hsource := hs.nodeSlot?_eq (hs.sound.node_of_end i e .outgoing hi)
  have htarget := hs.nodeSlot?_eq (hs.sound.node_of_end i e .incoming hi)
  change s.nodeSlot? e.edge.source = .ok (some e.source) at hsource
  change s.nodeSlot? e.edge.target = .ok (some e.target) at htarget
  rw [RunsDown, hsource, htarget]
  simp

/-- No loop is half of a pair, so what is not shown is a half that runs up. -/
theorem isShownFolded_iff (hs : s.Consistent order) (hi : s.store.plain? i = some e) :
    e.isShownFolded .outgoing false = true ↔ (e.isMutual = true → e.target < e.source) := by
  rw [EdgeSlot.isShownFolded]
  by_cases hloop : e.isLoop = true
  · have hflag : e.isMutual ≠ true := by
      intro hmutual
      have hne := ((hs.isMutual_iff hi).mp hmutual).1
      exact hne ((hs.end_eq_iff (p := .outgoing) (q := .incoming) hi hi).mp (beq_iff_eq.mp hloop))
    rw [if_pos hloop]
    simp [hflag]
  · rw [if_neg hloop]
    by_cases hmutual : e.isMutual = true <;> simp [hmutual]

theorem showsEdge_true (s : Session) (i : Nat) :
    s.store.showsEdge i true = (s.store.plain? i).any (·.isShownFolded .outgoing false) := by
  rw [Store.showsEdge, Store.plain?, Option.any_map]
  rfl

theorem mem_shown_iff (hs : s.Consistent order) :
    i ∈ s.store.edges.slots.filter (s.store.showsEdge · true) ↔
      ∃ e, s.store.plain? i = some e ∧ (s.IsPaired e.edge → s.RunsDown e.edge) := by
  have hshows : ∀ e, s.store.plain? i = some e →
      (s.store.showsEdge i true = true ↔ (s.IsPaired e.edge → s.RunsDown e.edge)) := by
    intro e hi
    rw [showsEdge_true, hi, Option.any_some, hs.isShownFolded_iff hi, hs.isMutual_iff_isPaired hi,
      hs.runsDown_iff hi]
  have hmem : i ∈ s.store.edges.slots ↔ ∃ e, s.store.plain? i = some e := by
    rw [← Option.isSome_iff_exists, ← hs.sound.mem_iff]
    exact hs.perm_slots.mem_iff.symm
  rw [List.mem_filter, hmem]
  constructor
  · rintro ⟨⟨e, hi⟩, hshown⟩
    exact ⟨e, hi, (hshows e hi).mp hshown⟩
  · rintro ⟨e, hi, hdown⟩
    exact ⟨⟨e, hi⟩, (hshows e hi).mpr hdown⟩

theorem mem_edgesInOrder_iff (hs : s.Consistent order) : edge ∈ s.edgesInOrder true ↔
    s.containsEdge edge = true ∧ (s.IsPaired edge → s.RunsDown edge) := by
  rw [edgesInOrder, List.mem_filterMap, hs.containsEdge_iff_plain?]
  constructor
  · rintro ⟨i, hmem, hedge⟩
    obtain ⟨e, hi, hdown⟩ := hs.mem_shown_iff.mp hmem
    rw [Store.edge?_eq, Store.fixed?_eq, hi, Option.map_some, Option.map_some, Option.some.injEq]
      at hedge
    subst hedge
    exact ⟨⟨i, e, hi, rfl⟩, hdown⟩
  · rintro ⟨⟨i, e, hi, rfl⟩, hdown⟩
    refine ⟨i, hs.mem_shown_iff.mpr ⟨e, hi, hdown⟩, ?_⟩
    rw [Store.edge?_eq, Store.fixed?_eq, hi]
    rfl

/-! ### How many edges it shows -/

theorem exists_back (hs : s.Consistent order) (hi : s.store.plain? i = some e)
    (hmutual : e.isMutual = true) : ∃ j f, s.store.plain? j = some f ∧ f.isMutual = true ∧
      f.source = e.target ∧ f.target = e.source ∧
      (f.edge.source, f.edge.target, f.edge.label) = (e.edge.target, e.edge.source, e.edge.label) := by
  obtain ⟨j, _, f, hj, hmutual', hreverses⟩ := hs.exists_reverse hi hmutual
  obtain ⟨hsource, htarget, hlabel, _⟩ := (hs.reverses_iff hi hj).mp hreverses
  exact ⟨j, f, hj, hmutual', hreverses.1, hreverses.2.1, by rw [hsource, htarget, hlabel]⟩

/-- As many edges are passed over as there are pairs: every half that runs up belongs to one that runs
down. -/
theorem tally_hidden (hs : s.Consistent order) :
    s.store.tally order (fun e => !e.isShownFolded .outgoing false) =
      s.store.edges.mutualCount := by
  have hdown : ∀ {e : EdgeSlot}, e.isMutualDown = true ↔ e.isMutual = true ∧ e.target < e.source := by
    intro e
    rw [EdgeSlot.isMutualDown, Bool.and_eq_true, decide_eq_true_iff]
  have hup : ∀ {i e}, s.store.plain? i = some e → ((!e.isShownFolded .outgoing false) = true ↔
      e.isMutual = true ∧ ¬ e.target < e.source) := by
    intro i e hi
    rw [Bool.not_eq_true', ← Bool.not_eq_true, hs.isShownFolded_iff hi, Classical.not_imp]
  have hcount : (s.store.tally order EdgeSlot.isMutualDown : ℕ∞) =
      {x : Node × Node × String | ∃ i e, s.store.plain? i = some e ∧ e.isMutualDown = true ∧
        (e.edge.source, e.edge.target, e.edge.label) = x}.encard := by
    refine hs.tally_eq_encard (fun i j e f hi hj _ _ heq => ?_) fun x => Iff.rfl
    simp only [Prod.mk.injEq] at heq
    exact hs.slot_eq_of_parallel hi hj heq.1 heq.2.1 heq.2.2
  rw [hs.sound.paired.mutualCount, ← ENat.natCast_inj, hcount]
  refine hs.tally_eq_encard (v := fun e => (e.edge.target, e.edge.source, e.edge.label))
    (fun i j e f hi hj _ _ heq => ?_) fun x => ?_
  · simp only [Prod.mk.injEq] at heq
    exact hs.slot_eq_of_parallel hi hj heq.2.1 heq.1 heq.2.2
  · constructor
    · rintro ⟨i, e, hi, he, rfl⟩
      obtain ⟨hmutual, hlt⟩ := hdown.mp he
      obtain ⟨j, f, hj, hmutual', hsource, htarget, hback⟩ := hs.exists_back hi hmutual
      refine ⟨j, f, hj, (hup hj).mpr ⟨hmutual', by omega⟩, ?_⟩
      simp only [Prod.mk.injEq] at hback ⊢
      exact ⟨hback.2.1, hback.1, hback.2.2⟩
    · rintro ⟨i, e, hi, he, rfl⟩
      obtain ⟨hmutual, hnot⟩ := (hup hi).mp he
      obtain ⟨j, f, hj, hmutual', hsource, htarget, hback⟩ := hs.exists_back hi hmutual
      have hne : e.source ≠ e.target := fun h =>
        ((hs.isMutual_iff hi).mp hmutual).1
          ((hs.end_eq_iff (p := .outgoing) (q := .incoming) hi hi).mp h)
      exact ⟨j, f, hj, hdown.mpr ⟨hmutual', by omega⟩, hback⟩

theorem tally_add_tally_not (hs : s.Consistent order) (P : EdgeSlot → Bool) :
    s.store.tally order P + s.store.tally order (fun e => !P e) = s.store.edges.arena.size := by
  have hrest : s.store.tally order (fun e => !P e) =
      order.countP (fun i => ¬ (s.store.plain? i).any P = true) := by
    refine List.countP_congr fun i hi => ?_
    obtain ⟨e, he⟩ := Option.isSome_iff_exists.mp ((hs.sound.mem_iff i).mp hi)
    rw [he]
    simp
  calc s.store.tally order P + s.store.tally order (fun e => !P e)
      = order.length := by
        rw [hrest, Store.tally]
        exact (List.length_eq_countP_add_countP _).symm
    _ = s.store.edges.arena.size := by
        rw [hs.perm_slots.length_eq, hs.sound.edges_valid.size_eq]

theorem length_edgesInOrder (hs : s.Consistent order) :
    (s.edgesInOrder true).length = s.foldedEdgeCount := by
  have hlive : ∀ i ∈ s.store.edges.slots.filter (s.store.showsEdge · true),
      (s.store.edge? i).isSome = true := by
    intro i hi
    obtain ⟨e, he, _⟩ := hs.mem_shown_iff.mp hi
    rw [Store.edge?_eq, Store.fixed?_eq, he]
    rfl
  have hshown : (s.edgesInOrder true).length =
      s.store.tally order (·.isShownFolded .outgoing false) :=
    calc (s.edgesInOrder true).length
        = (s.store.edges.slots.filter (s.store.showsEdge · true)).length := by
          rw [edgesInOrder, List.length_filterMap_eq_countP, List.countP_eq_length.mpr hlive]
      _ = s.store.edges.slots.countP (s.store.showsEdge · true) := List.countP_eq_length_filter.symm
      _ = order.countP (s.store.showsEdge · true) := (hs.perm_slots.countP_eq _).symm
      _ = s.store.tally order (·.isShownFolded .outgoing false) := by
          rw [Store.tally]
          exact List.countP_congr fun i _ => by rw [showsEdge_true]
  have hall := hs.tally_add_tally_not (·.isShownFolded .outgoing false)
  rw [hs.tally_hidden] at hall
  rw [hshown, foldedEdgeCount, EdgeTable.foldedSize]
  omega

theorem ordered_edgesInOrder (hs : s.Consistent order) (folded : Bool) :
    (s.edgesInOrder folded).Pairwise fun edge edge' => ∃ i j,
      s.edgeSlot? edge = .ok (some i) ∧ s.edgeSlot? edge' = .ok (some j) ∧ i < j := by
  rw [edgesInOrder, List.pairwise_filterMap]
  refine (hs.sound.edges_valid.toLaid.pairwise_lt_slots.filter _).imp fun {i j} hlt => ?_
  intro edge hi edge' hj
  exact ⟨i, j, hs.edgeSlot?_eq hi, hs.edgeSlot?_eq hj, hlt⟩

theorem lists_edges (hs : s.Consistent order) (folded : Bool) {g : Graph}
    {space space' : GraphSpace} {it : Iterator} (hspace : space.session? g = some s)
    (hopened : (Query.edges folded).iterator g space = (.ok it, space')) :
    it.Lists space' ((s.edgesInOrder folded).map (.edge · (some .outgoing))) := by
  obtain ⟨start, hstart, rfl⟩ := GraphSpace.exists_of_map hopened
  obtain ⟨guard, htake, rfl⟩ := EdgeIterator.exists_of_start hstart
  have hsession := GraphSpace.session?_of_take hspace htake
  rw [edgesInOrder, ← s.store.shownFrom_zero]
  exact EdgeIterator.lists_of_arena hsession hs.sound.edges_valid rfl rfl

theorem folds (hs : s.Consistent order) : s.Folds where
  isMutual_iff := fun _ e he =>
    hs.isMutual_iff_isPaired (e := e.unlinked) (Store.Sound.plain?_eq_some he)
  mem_iff := fun _ => hs.mem_edgesInOrder_iff
  ordered := hs.ordered_edgesInOrder true
  length_eq := hs.length_edgesInOrder
  lists := hs.lists_edges true

end Consistent

theorem History.folds_pairs (h : History s edges) : s.Folds := by
  obtain ⟨order, hs, _⟩ := h.recorded
  exact hs.folds

theorem isPaired_paired : paired.IsPaired edgeAB ∧ paired.IsPaired edgeBA := by
  obtain ⟨order, hrecorded⟩ := paired_joined.1.recorded
  have hAB : paired.containsEdge edgeAB = true := (hrecorded.mem_iff _).mp (by decide)
  have hBA : paired.containsEdge edgeBA = true := (hrecorded.mem_iff _).mp (by decide)
  exact ⟨⟨rfl, by decide, edgeBA, hBA, rfl, rfl, rfl, rfl⟩, rfl, by decide, edgeAB, hAB, rfl, rfl, rfl, rfl⟩

theorem folds_pairs_paired : History paired [edgeAB, edgeBA] ∧ paired.IsPaired edgeAB ∧
    paired.IsPaired edgeBA ∧ paired.Folds :=
  ⟨paired_joined.1, isPaired_paired.1, isPaired_paired.2, paired_joined.1.folds_pairs⟩

end Session

end PropertyGraph

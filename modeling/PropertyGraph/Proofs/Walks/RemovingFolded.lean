import PropertyGraph.Proofs.Walks.FoldedRemoval
import PropertyGraph.Proofs.Walks.Removing

/-!
# Removing on a folded walk

A folded walk decides where it comes to an edge whether to pass over it, and goes by a flag that is
cleared where the other half of the pair is removed. So it comes to what is not hidden by the edges that
are still there, and a pair of which the first half is removed may come twice.
-/

namespace PropertyGraph

theorem exists_before_of_filter {α : Type} {f : α → Bool} {l rest : List α} {x : α}
    (hsuffix : x :: rest <:+ l) (hshown : l.filter f = x :: rest.filter f) :
    ∃ before, l = before ++ x :: rest ∧ (∀ y ∈ before, f y = false) ∧ f x = true := by
  obtain ⟨before, rfl⟩ := hsuffix
  have hx : f x = true := List.of_mem_filter (hshown ▸ List.mem_cons_self)
  rw [List.filter_append, List.filter_cons_of_pos hx, List.append_left_eq_self] at hshown
  exact ⟨before, rfl, fun y hy => Bool.eq_false_iff.mpr (List.filter_eq_nil_iff.mp hshown y hy), hx⟩

theorem exists_append_of_filter_eq {α : Type} {f : α → Bool} {l before rest : List α} {x : α}
    (h : l.filter f = before ++ x :: rest) : ∃ before' rest', l = before' ++ x :: rest' ∧
      (∀ y ∈ before', f y = true → y ∈ before) ∧ rest'.filter f = rest := by
  obtain ⟨l₁, l₂, rfl, rfl, h₂⟩ := List.filter_eq_append_iff.mp h
  obtain ⟨l₃, l₄, rfl, hnone, -, h₄⟩ := List.filter_eq_cons_iff.mp h₂
  refine ⟨l₁ ++ l₃, l₄, (List.append_assoc _ _ _).symm, fun y hy hfy => ?_, h₄⟩
  rcases List.mem_append.mp hy with hy | hy
  · exact List.mem_filter.mpr ⟨hy, hfy⟩
  · exact absurd hfy (hnone y hy)

open GraphSpace Session

/-! ### What a folded walk has ahead of it -/

namespace EdgeIterator

variable {s s' : Store} {order here : List Nat} {direction : Direction} {cursor : EdgeCursor}
  {ahead rest : List (Phase × Nat)} {c : AdjacencyCursor} {slot : Nat}

/-- The slots that a folded walk has ahead of it, whether it will show them or not. -/
inductive Ahead (s : Store) (order : List Nat) :
    Direction → EdgeCursor → List (Phase × Nat) → Prop
  | arena (position : Nat) : Ahead s order .outgoing (.arena position true)
      ((s.edges.slots.filter (position ≤ ·)).map (.outgoing, ·))
  | around (c : AdjacencyCursor) (here : List Nat) (h : c.Along s order here)
    (hfolded : c.folded = true) (hsuffix : c.toCome s order here <:+
      (AdjacencyCursor.start c.node c.direction c.label c.folded).toCome s order []) :
    Ahead s order c.direction (.adjacent c) (c.toCome s order here)
  | ended (direction : Direction) (c : AdjacencyCursor) (hdone : c.done = true) :
    Ahead s order direction (.adjacent c) []

/-- A folded walk has come to a slot and has the rest ahead of it, but for the slot itself where the edge
in it is removed. -/
structure JustReached (s : Store) (order : List Nat) (direction : Direction) (cursor : EdgeCursor)
    (slot : Nat) (rest : List (Phase × Nat)) : Prop where
  ahead : Ahead s order direction cursor rest
  ahead_of_lacksEdge : ∀ s', s.LacksEdge slot s' → s'.Sound (order.erase slot) →
    Ahead s' (order.erase slot) direction cursor (rest.filter (·.2 != slot))

theorem justReached_arena (hs : s.Sound order) (slot : Nat) :
    JustReached s order .outgoing (.arena (slot + 1) true) slot
      ((s.edges.slots.filter (slot + 1 ≤ ·)).map (.outgoing, ·)) where
  ahead := .arena (slot + 1)
  ahead_of_lacksEdge := by
    intro s' hlacks hs'
    have hrest : ((s.edges.slots.filter (slot + 1 ≤ ·)).map ((Phase.outgoing, ·))).filter
        (·.2 != slot) = (s'.edges.slots.filter (slot + 1 ≤ ·)).map (.outgoing, ·) := by
      have hlive : ∀ i, slot + 1 ≤ i →
          (s'.edges.get? i).isSome = (s.edges.get? i).isSome := by
        intro i hi
        have hedge := congrArg Option.isSome (hlacks.edge?_eq i)
        rwa [if_neg (by omega), Store.edge?, Option.isSome_map, Store.edge?, Option.isSome_map]
          at hedge
      have hslots : s'.edges.slots.filter (slot + 1 ≤ ·) = s.edges.slots.filter (slot + 1 ≤ ·) :=
        hs.edges_valid.toLaid.slots_from_congr hs'.edges_valid.toLaid hlive
      rw [hslots]
      refine List.filter_eq_self.mpr fun x hx => ?_
      obtain ⟨i, hi, rfl⟩ := List.mem_map.mp hx
      have hle : slot + 1 ≤ i := of_decide_eq_true (List.mem_filter.mp hi).2
      exact bne_iff_ne.mpr (by omega)
    rw [hrest]
    exact .arena (slot + 1)

theorem justReached_around (hs : s.Sound order) (h : c.Along s order here) (hfolded : c.folded = true)
    (hpast : (c.phase, slot) :: c.toCome s order here <:+
      (AdjacencyCursor.start c.node c.direction c.label c.folded).toCome s order []) :
    JustReached s order c.direction (.adjacent c) slot (c.toCome s order here) where
  ahead := .around c here h hfolded ((List.suffix_cons _ _).trans hpast)
  ahead_of_lacksEdge := by
    intro s' hlacks hs'
    have hhere := AdjacencyCursor.notMem_of_past hs hpast
    have htoCome := AdjacencyCursor.toCome_of_lacksEdge hlacks hs.nodup c here
    rw [filter_bne_of_notMem hhere] at htoCome
    rw [← htoCome]
    exact .around c here (h.of_lacksEdge hlacks hs.nodup hhere) hfolded
      (AdjacencyCursor.suffix_of_lacksEdge ((List.suffix_cons _ _).trans hpast) hlacks hs.nodup hhere)

theorem Ahead.seek_cases {it : EdgeIterator} {s : Session}
    (h : Ahead s.store order direction it.cursor ahead) (hs : s.store.Sound order)
    (hfilter : it.filter = none) :
    (∃ cursor, it.seek s = (none, { it with cursor }) ∧
      ∀ x ∈ ahead, s.store.shows direction true x = false) ∨
    ∃ before p slot rest edge cursor, ahead = before ++ (p, slot) :: rest ∧
      (∀ x ∈ before, s.store.shows direction true x = false) ∧
      s.store.shows direction true (p, slot) = true ∧ s.store.edge? slot = some edge ∧
      it.seek s = (some edge, { it with cursor, current := some edge, phase := some p }) ∧
      JustReached s.store order direction cursor slot rest := by
  generalize hcursor : it.cursor = cursor at h
  cases h with
  | arena position =>
    have hshown : ((s.store.edges.slots.filter (position ≤ ·)).map ((Phase.outgoing, ·))).filter
        (s.store.shows .outgoing true) = (s.store.shownFrom true position).map (.outgoing, ·) := by
      rw [List.filter_map]
      rfl
    rcases seek_cases_of_arena hs.edges_valid hfilter hcursor with
      ⟨stop, hseek, _, hnil⟩ | ⟨slot, edge, hedge, hseek, hsuffix, hcons⟩
    · rw [hnil, List.map_nil, List.filter_eq_nil_iff] at hshown
      exact .inl ⟨_, hseek, fun x hx => Bool.eq_false_iff.mpr (hshown x hx)⟩
    · have hfirst : s.store.shownFrom true (slot + 1) =
          (s.store.edges.slots.filter (slot + 1 ≤ ·)).filter (s.store.showsEdge · true) := rfl
      rw [hcons, hfirst, List.map_cons] at hshown
      obtain ⟨before, hahead, hhidden, hx⟩ := exists_before_of_filter
        (hsuffix.map (Phase.outgoing, ·)) (by rw [hshown, List.filter_map]; rfl)
      exact .inr ⟨before, .outgoing, slot, _, edge, _, hahead, hhidden, hx, hedge, hseek,
        justReached_arena hs slot⟩
  | around c here h hfolded hsuffix =>
    obtain ⟨N, hN⟩ := Option.isSome_iff_exists.mp h.node
    have hbound : (c.toCome s.store order here).length < s.store.walkBound := by
      have hlength := hsuffix.length_le.trans
        (AdjacencyCursor.length_toCome_start_le hs hN c.direction c.label c.folded)
      rw [Store.walkBound]
      omega
    rcases seek_cases_of_adjacent hs hfilter hcursor h hbound with
      ⟨c', hseek, _, hnil⟩ | ⟨slot, edge, c', here', hedge, hseek, h', hsame, hsuffix', hcons⟩
    · rw [AdjacencyCursor.shown, hfolded, List.filter_eq_nil_iff] at hnil
      exact .inl ⟨_, hseek, fun x hx => Bool.eq_false_iff.mpr (hnil x hx)⟩
    · rw [AdjacencyCursor.shown, AdjacencyCursor.shown, hsame.direction, hsame.folded, hfolded]
        at hcons
      obtain ⟨before, hahead, hhidden, hx⟩ := exists_before_of_filter hsuffix' hcons
      have hpast := hsuffix'.trans hsuffix
      rw [← hsame.node, ← hsame.direction, ← hsame.label, ← hsame.folded] at hpast
      refine .inr ⟨before, c'.phase, slot, _, edge, _, hahead, hhidden, hx, hedge, hseek, ?_⟩
      rw [← hsame.direction]
      exact justReached_around hs h' (hsame.folded.trans hfolded) hpast
  | ended direction c hdone =>
    refine .inl ⟨it.cursor, seek_of_done hcursor hdone, fun x hx => ?_⟩
    cases hx

end EdgeIterator

/-! ### The iterator -/

theorem Session.Consistent.shows_iff_of_edge? {s : Session} {order : List Nat} {slot : Nat} {edge : Edge}
    (hs : s.Consistent order) (hedge : s.store.edge? slot = some edge) (direction : Direction)
    (p : Phase) :
    s.store.shows direction true (p, slot) = true ↔ ¬ s.PassesOver direction (p, edge) := by
  rw [Store.edge?_eq, Store.fixed?_eq, Option.map_map] at hedge
  obtain ⟨e, he, rfl⟩ := Option.map_eq_some_iff.mp hedge
  exact hs.shows_iff he

namespace EdgeIterator

variable {s : Session} {order : List Nat} {direction : Direction} {it : EdgeIterator}
  {x : Phase × Edge} {walk rest : List (Phase × Edge)} {space : GraphSpace}

/-- What an iterator has ahead of it whose walk is folded, whether it will come to it or not. -/
structure UpcomingFolded (s : Session) (order : List Nat) (direction : Direction) (it : EdgeIterator)
    (walk : List (Phase × Edge)) : Prop where
  unfiltered : it.filter = none
  exists_ahead : ∃ ahead, Ahead s.store order direction it.cursor ahead ∧
    ahead.filterMap s.edgeAlong = walk

/-- An iterator has come to an edge, which lies behind it, and has the rest ahead of it. -/
structure JustYieldedFolded (s : Session) (order : List Nat) (direction : Direction) (it : EdgeIterator)
    (edge : Edge) (rest : List (Phase × Edge)) : Prop where
  unfiltered : it.filter = none
  current_eq : it.current = some edge
  exists_justReached : ∃ slot ahead, s.store.edge? slot = some edge ∧
    JustReached s.store order direction it.cursor slot ahead ∧ ahead.filterMap s.edgeAlong = rest

theorem JustYieldedFolded.upcomingFolded {edge : Edge}
    (h : JustYieldedFolded s order direction it edge rest) :
    UpcomingFolded s order direction it rest := by
  obtain ⟨_, ahead, _, hreaches, hrest⟩ := h.exists_justReached
  exact ⟨h.unfiltered, ahead, hreaches.ahead, hrest⟩

theorem UpcomingFolded.containsEdge (h : UpcomingFolded s order direction it walk)
    (hs : s.Consistent order)
    (hx : x ∈ walk) : s.containsEdge x.2 = true := by
  obtain ⟨ahead, _, rfl⟩ := h.exists_ahead
  obtain ⟨y, _, hy⟩ := List.mem_filterMap.mp hx
  obtain ⟨edge, hedge, rfl⟩ := Option.map_eq_some_iff.mp hy
  exact hs.containsEdge_iff.mpr ⟨y.2, hedge⟩

theorem UpcomingFolded.next_cases (h : UpcomingFolded s order direction it walk)
    (hs : s.Consistent order)
    (hsession : space.session? it.guard.graph = some s) :
    (∃ it', (Iterator.edges it).next space = (none, .edges it') ∧
      ∀ y ∈ walk, s.PassesOver direction y) ∨
    ∃ before x rest it', walk = before ++ x :: rest ∧ (∀ y ∈ before, s.PassesOver direction y) ∧
      ¬ s.PassesOver direction x ∧
      (Iterator.edges it).next space = (some (.edge x.2 (some x.1)), .edges it') ∧
      it'.guard = it.guard ∧ JustYieldedFolded s order direction it' x.2 rest := by
  obtain ⟨hfilter, ahead, hahead, rfl⟩ := h
  have hhides : ∀ slots : List (Phase × Nat),
      (∀ y ∈ slots, s.store.shows direction true y = false) →
      ∀ y ∈ slots.filterMap s.edgeAlong, s.PassesOver direction y := by
    intro slots hhidden y hy
    obtain ⟨⟨p, i⟩, hmem, hat⟩ := List.mem_filterMap.mp hy
    obtain ⟨edge, hedge, rfl⟩ := Option.map_eq_some_iff.mp hat
    by_contra hshown
    exact Bool.eq_false_iff.mp (hhidden _ hmem) ((hs.shows_iff_of_edge? hedge direction p).mpr hshown)
  rw [next_edges_of_seek it hsession]
  rcases hahead.seek_cases hs.sound hfilter with
    ⟨cursor, hseek, hhidden⟩ | ⟨before, p, slot, rest, edge, cursor, rfl, hhidden, hshown, hedge,
      hseek, hreaches⟩
  · rw [hseek]
    exact .inl ⟨_, rfl, hhides ahead hhidden⟩
  · have hfirst : s.edgeAlong (p, slot) = some (p, edge) := by rw [edgeAlong, hedge, Option.map_some]
    rw [hseek, List.filterMap_append, List.filterMap_cons_some hfirst]
    exact .inr ⟨_, (p, edge), _, _, rfl, hhides before hhidden,
      (hs.shows_iff_of_edge? hedge direction p).mp hshown, rfl, rfl, hfilter, rfl, slot, rest, hedge,
      hreaches, rfl⟩

theorem JustYieldedFolded.remove {edge : Edge} (h : JustYieldedFolded s order direction it edge rest)
    (hs : s.Consistent order) (hsession : space.session? it.guard.graph = some s)
    (hwriter : space.IsWriter it.guard.graph) :
    ∃ it' space' s' order', (Iterator.edges it).remove space = ((.ok true, .edges it'), space') ∧
      it'.guard = it.guard ∧ space'.session? it.guard.graph = some s' ∧
      space'.IsWriter it.guard.graph ∧ s'.Consistent order' ∧ RemovesItems [.edge edge none] s s' ∧
      UpcomingFolded s' order' direction it' (rest.filter (·.2 ≠ edge)) := by
  obtain ⟨hfilter, hcurrent, slot, ahead, hedge, hreaches, rfl⟩ := h
  obtain ⟨hlacks, hs'⟩ := hs.lacksEdge_removeEdge hedge
  refine ⟨{ it with current := none }, _, _, order.erase slot,
    Iterator.remove_edges_of_current hs hfilter hcurrent hedge hsession hwriter, rfl,
    session?_run hsession (removeEdge edge), hwriter.run _, hs', hs.removesItems_removeEdge hedge none,
    hfilter, _, hreaches.ahead_of_lacksEdge _ hlacks hs'.sound, ?_⟩
  rw [List.filterMap_filter, List.filter_filterMap]
  refine List.filterMap_congr fun x _ => ?_
  rw [edgeAlong, edgeAlong, hlacks.edge?_eq]
  by_cases hi : x.2 = slot
  · rw [hi, hedge, bne_self_eq_false, if_neg Bool.false_ne_true, Option.map_some, Option.filter_some,
      if_neg (by simp)]
  · rw [if_pos (bne_iff_ne.mpr hi), if_neg hi]
    cases hother : s.store.edge? x.2 with
    | none => rfl
    | some other =>
      have hne : other ≠ edge := by
        rintro rfl
        exact hi (hs.edge_unique hother hedge)
      rw [Option.map_some, Option.filter_some, if_pos (by simpa using hne)]

end EdgeIterator

/-! ### Removing along a folded walk -/

/-- The item of an edge that came, with the answer of its removal if it was chosen. -/
def Item.answered (x : (Phase × Edge) × Bool) : Item × Option (Except Fault Bool) :=
  (.edge x.1.2 (some x.1.1), if x.2 then some (.ok true) else none)

/-- How it ends when edges are removed along a folded walk: what came is the walk without what was still hidden then,
and what was chosen is gone and nothing else. No edge came twice, and the half of a mutual pair that runs
up came only behind the other half, which was removed. -/
structure Iterator.RemovedAlongFolded (g : Graph) (s : Session) (direction : Direction)
    (walk : List (Phase × Edge)) (choices : List Bool)
    (came : List (Item × Option (Except Fault Bool))) (space : GraphSpace) : Prop where
  came_eq : came = (s.pickFolded direction choices [] walk).map Item.answered
  exists_removesItems : ∃ s', space.session? g = some s' ∧
    RemovesItems (((s.pickFolded direction choices [] walk).filter (·.2)).map (.edge ·.1.2 none)) s s'
  once : came.Pairwise fun x y => ∀ edge p q, x.1 = .edge edge p → y.1 ≠ .edge edge q
  pairs : ∀ down up, s.Halves down up → ∀ p answer, (Item.edge up p, answer) ∈ came →
    ∃ q, [(.edge down q, some (.ok true)), (.edge up p, answer)].Sublist came

namespace EdgeIterator

variable {s s₀ : Session} {order order₀ : List Nat} {direction : Direction} {it : EdgeIterator}
  {x : Phase × Edge} {walk rest : List (Phase × Edge)} {gone : List Edge} {space : GraphSpace}

/-- An iterator is on the rest of a walk on which some edges are gone, and has ahead of it what is left
of that. -/
structure MidFoldedWalk (s₀ s : Session) (order : List Nat) (direction : Direction) (gone : List Edge)
    (it : EdgeIterator) (walk : List (Phase × Edge)) : Prop where
  consistent : s.Consistent order
  removesItems : RemovesItems (gone.map (.edge · none)) s₀ s
  upcoming : it.UpcomingFolded s order direction (walk.filter (·.2 ∉ gone))
  returns : ∀ x ∈ walk, x.2 ∈ gone → Returns direction x
  apart : walk.Pairwise fun x y => y.2 = x.2 → Returns direction y

namespace MidFoldedWalk

theorem passesOver_iff (h : MidFoldedWalk s₀ s order direction gone it walk) (hs₀ : s₀.Consistent order₀)
    (hx : x ∈ walk.filter (·.2 ∉ gone)) :
    s.PassesOver direction x ↔ s₀.StillHides direction gone x :=
  h.removesItems.passesOver_iff hs₀ h.consistent (h.upcoming.containsEdge h.consistent hx)

theorem stillHides (h : MidFoldedWalk s₀ s order direction gone it walk) (hs₀ : s₀.Consistent order₀)
    (hx : x ∈ walk) (hpassed : x.2 ∉ gone → s.PassesOver direction x) :
    s₀.StillHides direction gone x := by
  by_cases hmem : x.2 ∈ gone
  · exact .inr (h.returns x hx hmem)
  · exact (h.passesOver_iff hs₀ (List.mem_filter.mpr ⟨hx, by simpa using hmem⟩)).mp (hpassed hmem)

theorem next_cases (h : MidFoldedWalk s₀ s order direction gone it walk) (hs₀ : s₀.Consistent order₀)
    (hsession : space.session? it.guard.graph = some s) :
    (∃ it', (Iterator.edges it).next space = (none, .edges it') ∧
      ∀ y ∈ walk, s₀.StillHides direction gone y) ∨
    ∃ before x rest it', walk = before ++ x :: rest ∧
      (∀ y ∈ before, s₀.StillHides direction gone y) ∧ ¬ s₀.StillHides direction gone x ∧
      (Iterator.edges it).next space = (some (.edge x.2 (some x.1)), .edges it') ∧
      it'.guard = it.guard ∧ MidFoldedWalk s₀ s order direction gone it' rest ∧
      JustYieldedFolded s order direction it' x.2 (rest.filter (·.2 ∉ gone)) := by
  rcases h.upcoming.next_cases h.consistent hsession with
    ⟨it', hnext, hpassed⟩ | ⟨before, x, rest, it', hahead, hpassed, hshown, hnext, hguard, hbehind⟩
  · refine .inl ⟨it', hnext, fun y hy => h.stillHides hs₀ hy fun hmem => ?_⟩
    exact hpassed y (List.mem_filter.mpr ⟨hy, by simpa using hmem⟩)
  · have hx : x ∈ walk.filter (·.2 ∉ gone) := hahead ▸ List.mem_append_right _ List.mem_cons_self
    obtain ⟨before', rest', rfl, hbefore, rfl⟩ := exists_append_of_filter_eq hahead
    refine .inr ⟨before', x, rest', it', rfl, fun y hy => ?_, ?_, hnext, hguard, ?_, hbehind⟩
    · exact h.stillHides hs₀ (List.mem_append_left _ hy) fun hmem =>
        hpassed y (hbefore y hy (by simpa using hmem))
    · exact fun hhidden => hshown ((h.passesOver_iff hs₀ hx).mpr hhidden)
    · refine ⟨h.consistent, h.removesItems, hbehind.upcomingFolded, fun y hy => ?_, ?_⟩
      · exact h.returns y (List.mem_append_right _ (List.mem_cons_of_mem x hy))
      · exact (List.pairwise_cons.mp (List.pairwise_append.mp h.apart).2.1).2

theorem remove (h : MidFoldedWalk s₀ s order direction gone it rest)
    (hbehind : JustYieldedFolded s order direction it x.2 (rest.filter (·.2 ∉ gone)))
    (hfirst : ∀ y ∈ rest, y.2 = x.2 → Returns direction y)
    (hsession : space.session? it.guard.graph = some s) (hwriter : space.IsWriter it.guard.graph) :
    ∃ it' space' s' order', (Iterator.edges it).remove space = ((.ok true, .edges it'), space') ∧
      it'.guard = it.guard ∧ space'.session? it.guard.graph = some s' ∧
      space'.IsWriter it.guard.graph ∧ MidFoldedWalk s₀ s' order' direction (gone ++ [x.2]) it'
        rest := by
  obtain ⟨it', space', s', order', hremove, hguard, hsession', hwriter', hs', hremoves, hupcoming⟩ :=
    hbehind.remove h.consistent hsession hwriter
  have hkept : (rest.filter (·.2 ∉ gone)).filter (·.2 ≠ x.2) = rest.filter (·.2 ∉ gone ++ [x.2]) := by
    rw [List.filter_filter]
    refine List.filter_congr fun y _ => ?_
    simp [and_comm]
  refine ⟨it', space', s', order', hremove, hguard, hsession', hwriter', hs', ?_, hkept ▸ hupcoming, ?_,
    h.apart⟩
  · rw [List.map_append]
    exact h.removesItems.trans hremoves
  · intro y hy hmem
    rcases List.mem_append.mp hmem with hmem | hmem
    · exact h.returns y hy hmem
    · exact hfirst y hy (List.mem_singleton.mp hmem)

theorem removeAlong_eq (h : MidFoldedWalk s₀ s order direction gone it walk) (hs₀ : s₀.Consistent order₀)
    (hsession : space.session? it.guard.graph = some s) (hwriter : space.IsWriter it.guard.graph)
    (choices : List Bool) : ((Iterator.edges it).removeAlong choices space).1 =
        (s₀.pickFolded direction choices gone walk).map Item.answered ∧
      ∃ s', ((Iterator.edges it).removeAlong choices space).2.2.session? it.guard.graph = some s' ∧
        RemovesItems ((gone ++ ((s₀.pickFolded direction choices gone walk).filter (·.2)).map
          (·.1.2)).map
          (.edge · none)) s₀ s' := by
  induction choices generalizing it space s order walk gone with
  | nil =>
    rw [pickFolded_nil]
    exact ⟨rfl, s, hsession, (List.append_nil gone).symm ▸ h.removesItems⟩
  | cons chosen choices ih =>
    rw [Iterator.removeAlong]
    rcases h.next_cases hs₀ hsession with
      ⟨it', hnext, hhidden⟩ | ⟨before, x, rest, it', rfl, hhidden, hshown, hnext, hguard, h', hbehind⟩
    · have hall : s₀.pickFolded direction (chosen :: choices) gone (walk ++ []) = [] :=
        (pickFolded_append hhidden).trans rfl
      rw [List.append_nil] at hall
      rw [hnext, hall]
      exact ⟨rfl, s, hsession, (List.append_nil gone).symm ▸ h.removesItems⟩
    · rw [hnext, pickFolded_append hhidden, pickFolded_of_shown hshown]
      rw [← hguard] at hsession hwriter ⊢
      cases chosen with
      | false =>
        obtain ⟨hcame, hleft⟩ := ih h' hsession hwriter
        exact ⟨congrArg (List.cons _) hcame, hleft⟩
      | true =>
        have hfirst := (List.pairwise_cons.mp (List.pairwise_append.mp h.apart).2.1).1
        obtain ⟨it'', space', s', order', hremove, hguard', hsession', hwriter', h''⟩ :=
          h'.remove hbehind hfirst hsession hwriter
        rw [← hguard'] at hsession' hwriter' ⊢
        obtain ⟨hcame, s'', hs'', hleft⟩ := ih h'' hsession' hwriter'
        simp only [hremove, if_true]
        refine ⟨congrArg (List.cons _) hcame, s'', hs'', ?_⟩
        rwa [List.append_assoc, List.singleton_append] at hleft

theorem removedAlongFolded (h : MidFoldedWalk s s order direction [] it walk)
    (hsession : space.session? it.guard.graph = some s) (hwriter : space.IsWriter it.guard.graph)
    (choices : List Bool) : Iterator.RemovedAlongFolded it.guard.graph s direction walk choices
      ((Iterator.edges it).removeAlong choices space).1
        ((Iterator.edges it).removeAlong choices space).2.2 := by
  obtain ⟨hcame, s', hs', hremoves⟩ := h.removeAlong_eq h.consistent hsession hwriter choices
  rw [List.nil_append, List.map_map] at hremoves
  rw [hcame]
  refine ⟨rfl, ⟨s', hs', hremoves⟩, ?_, ?_⟩
  · refine List.pairwise_map.mpr ((pairwise_pickFolded h.apart).imp fun {x y} hne => ?_)
    exact fun edge p q hx hy => hne ((Item.edge.inj hx).1.trans (Item.edge.inj hy).1.symm)
  · intro down up hhalves p answer hmem
    obtain ⟨⟨⟨q, edge⟩, chosen⟩, hz, heq⟩ := List.mem_map.mp hmem
    cases heq
    rcases hhalves.of_mem_pickFolded hz with hgone | ⟨q', hsub⟩
    · cases hgone
    · exact ⟨q', hsub.map Item.answered⟩

end MidFoldedWalk

end EdgeIterator

/-! ### Folded walks -/

def Query.isFolded : Query → Bool
  | edges folded => folded
  | around _ _ _ folded => folded
  | nodes | nodesThrough _ | edgesThrough _ | aroundThrough .. => false

/-- What the walk of a query comes to before it is folded, and its direction: all edges going out, or the
edges around a node. -/
inductive Query.Folds (s : Session) : Query → Direction → List (Phase × Edge) → Prop
  | edges : Folds s (.edges true) .outgoing ((s.edgesInOrder false).map (.outgoing, ·))
  | around {node : Node} {direction : Direction} {label : Option String}
    {walk : List (Phase × Edge)} (h : s.adjacency node direction label false = .ok walk) :
    Folds s (.around node direction label true) direction walk

namespace EdgeIterator

variable {s : Session} {order : List Nat} {direction : Direction} {it : EdgeIterator}
  {walk : List (Phase × Edge)} {position : Nat}

theorem UpcomingFolded.midFoldedWalk (h : it.UpcomingFolded s order direction walk)
    (hs : s.Consistent order)
    (hapart : walk.Pairwise fun x y => y.2 = x.2 → Returns direction y) :
    MidFoldedWalk s s order direction [] it walk where
  consistent := hs
  removesItems := .refl s
  upcoming := by rwa [List.filter_eq_self.mpr fun _ _ => by simp]
  returns := fun _ _ hmem => nomatch hmem
  apart := hapart

theorem midFoldedWalk_start (hs : s.Consistent order) (guard : Guard) :
    MidFoldedWalk s s order .outgoing [] { guard, cursor := .arena 0 true }
      ((s.edgesInOrder false).map (.outgoing, ·)) := by
  refine UpcomingFolded.midFoldedWalk ⟨rfl, _, .arena 0, ?_⟩ hs (List.pairwise_map.mpr ?_)
  · rw [List.filterMap_map, edgesInOrder, List.map_filterMap]
    rfl
  · refine (hs.ordered_edgesInOrder false).imp fun {x y} hslots hsame => ?_
    obtain ⟨i, j, hi, hj, hlt⟩ := hslots
    change y = x at hsame
    rw [hsame, hi, Except.ok.injEq, Option.some.injEq] at hj
    omega

theorem midFoldedWalk_startAround (hs : s.Consistent order) {node : Node} {slot : Nat}
    (hslot : s.resolveNode node = .ok slot) (guard : Guard) (direction : Direction)
    (label : Option String) : ∃ walk, s.adjacency node direction label false = .ok walk ∧
      MidFoldedWalk s s order direction []
        { guard, cursor := .adjacent (.around s.store slot direction label true) } walk := by
  have hnode := node?_of_resolveNode hslot
  obtain ⟨N, hN, _⟩ := Option.map_eq_some_iff.mp hnode
  refine ⟨_, hs.adjacency_eq (hs.nodeSlot?_eq hnode) direction label false, ?_⟩
  rw [filter_shows_false]
  rcases s.around_cases order slot direction label true with ⟨hdone, hnone⟩ | ⟨id, hcursor, hahead⟩
  · rw [hnone]
    exact UpcomingFolded.midFoldedWalk ⟨rfl, [], .ended direction _ hdone, rfl⟩ hs List.Pairwise.nil
  · rw [hcursor, ← hahead]
    refine UpcomingFolded.midFoldedWalk ⟨rfl, _, .around _ []
      (AdjacencyCursor.along_start hN direction id true)
      rfl List.suffix_rfl, rfl⟩ hs ?_
    refine List.pairwise_filterMap.mpr ((AdjacencyCursor.pairwise_toCome_start hs.sound slot direction
      id true).imp_of_mem fun {x y} hx hy hslots => ?_)
    intro went hwent comes hcomes hsame
    obtain ⟨edge, hedge, rfl⟩ := Option.map_eq_some_iff.mp hwent
    obtain ⟨edge', hedge', rfl⟩ := Option.map_eq_some_iff.mp hcomes
    obtain rfl : edge' = edge := hsame
    obtain ⟨hboth, hout, hin⟩ := hslots (hs.edge_unique hedge' hedge)
    have hxy : x.2 = y.2 := hs.edge_unique hedge hedge'
    obtain ⟨p, i⟩ := x
    obtain ⟨q, j⟩ := y
    cases hout
    cases hin
    cases hxy
    exact ⟨hboth, rfl, hs.loop_of_mem_toCome_start hedge hx hy⟩

end EdgeIterator

theorem Query.exists_midFoldedWalk {q : Query} {s : Session} {order : List Nat} {g : Graph}
    {space space' : GraphSpace} {it : Iterator} (hs : s.Consistent order)
    (hsession : space.session? g = some s) (hq : q.isFolded = true)
    (h : q.iterator g space = (.ok it, space')) : ∃ e direction walk, it = .edges e ∧
      q.Folds s direction walk ∧ e.MidFoldedWalk s s order direction [] walk := by
  cases q with
  | edges folded =>
    obtain rfl : folded = true := hq
    obtain ⟨start, hstart, rfl⟩ := exists_of_map h
    obtain ⟨guard, _, rfl⟩ := EdgeIterator.exists_of_start hstart
    exact ⟨_, _, _, rfl, .edges, EdgeIterator.midFoldedWalk_start hs guard⟩
  | around node direction label folded =>
    obtain rfl : folded = true := hq
    obtain ⟨start, hstart, rfl⟩ := exists_of_map h
    obtain ⟨guard, slot, _, rfl, hslot⟩ := EdgeIterator.exists_of_startAround hsession hstart
    obtain ⟨walk, hwalk, hmid⟩ :=
      EdgeIterator.midFoldedWalk_startAround hs hslot guard direction label
    exact ⟨_, direction, walk, rfl, .around hwalk, hmid⟩
  | nodes => cases hq
  | nodesThrough view => cases hq
  | edgesThrough view => cases hq
  | aroundThrough view node direction => cases hq

/-- Where the caller may change the graph, edges can be removed along every folded walk. It shows a mutual
pair twice only if the half that runs down came first and was removed. -/
theorem GraphSpace.History.removes_along_folded_walk {space space' : GraphSpace} {g : Graph} {q : Query}
    {it : Iterator} (h : space.History) (hq : q.isFolded = true)
    (hopened : q.iterator g space = (.ok it, space')) (hwriter : space'.IsWriter g) :
    ∃ s direction walk, space.session? g = some s ∧ q.Folds s direction walk ∧
      ∀ choices, Iterator.RemovedAlongFolded g s direction walk choices (it.removeAlong choices space').1
        (it.removeAlong choices space').2.2 := by
  obtain ⟨rfl, hentered⟩ := Query.enter_of_iterator hopened
  obtain ⟨shared, _, _, hshared, _⟩ := exists_granted_of_enter hentered
  have hs := session?_of_shared? hshared
  obtain ⟨order, hconsistent⟩ := (h.orderly.settled _ _ hs).consistent
  obtain ⟨e, direction, walk, rfl, hfolds, hmid⟩ :=
    Query.exists_midFoldedWalk hconsistent hs hq hopened
  have hs' := (Query.session?_of_iterator hopened _).trans hs
  exact ⟨_, direction, walk, hs, hfolds, hmid.removedAlongFolded hs' hwriter⟩

/-! ### A pair that comes twice -/

namespace GraphSpace

def pairedHeld : GraphSpace :=
  heldAfter [.addNode nodeA, .addNode nodeB, .createView true, .addEdge edgeBA, .addEdge edgeAB]

theorem session?_pairedHeld : pairedHeld.session? ⟨0⟩ = some paired := by
  rw [pairedHeld, session?_heldAfter]
  simp only [List.foldl_cons, List.foldl_nil, perform_addNode_nodeA, perform_addNode_nodeB]
  rfl

theorem exists_iterator_pairedHeld : ∃ it space',
    (Query.around nodeB .both none true).iterator ⟨0⟩ pairedHeld = (.ok it, space') ∧
      space'.IsWriter ⟨0⟩ := by
  obtain ⟨order, hrecorded⟩ := paired_joined.1.recorded
  have hslot : paired.resolveNode nodeB = .ok 1 := by
    rw [resolveNode, hrecorded.consistent.nodeSlot?_eq paired_joined.2.2.nodeB_there]
    rfl
  have hopened := Query.iterator_around (enter_read_eq (lock?_heldAfter _) rfl rfl)
    session?_pairedHeld hslot .both none true
  exact ⟨_, _, hopened,
    IsWriter.of_enter ⟨_, lock?_heldAfter _, rfl⟩ (Query.enter_of_iterator hopened).2⟩

theorem removes_along_folded_walk_paired : History pairedHeld ∧ ∃ it space',
    (Query.around nodeB .both none true).iterator ⟨0⟩ pairedHeld = (.ok it, space') ∧
    space'.IsWriter ⟨0⟩ ∧ ∃ s direction walk, pairedHeld.session? ⟨0⟩ = some s ∧
      (Query.around nodeB .both none true).Folds s direction walk ∧
      ∀ choices, Iterator.RemovedAlongFolded ⟨0⟩ s direction walk choices
        (it.removeAlong choices space').1
        (it.removeAlong choices space').2.2 := by
  obtain ⟨it, space', hopened, hwriter⟩ := exists_iterator_pairedHeld
  exact ⟨history_heldAfter _, it, space', hopened, hwriter,
    (history_heldAfter _).removes_along_folded_walk rfl hopened hwriter⟩

/-- Both halves of a pair come, if the first is removed at once. -/
theorem folded_walk_yields_both_halves : ∃ it space', History pairedHeld ∧
    (Query.around nodeB .both none true).iterator ⟨0⟩ pairedHeld = (.ok it, space') ∧
    space'.IsWriter ⟨0⟩ ∧ pairedHeld.session? ⟨0⟩ = some paired ∧ paired.Halves edgeBA edgeAB ∧
    (it.removeAlong [true, true] space').1 = [(.edge edgeBA (some .outgoing), some (.ok true)),
      (.edge edgeAB (some .incoming), some (.ok true))] := by
  obtain ⟨it, space', hopened, hwriter⟩ := exists_iterator_pairedHeld
  obtain ⟨order, hrecorded⟩ := paired_joined.1.recorded
  obtain ⟨e, direction, walk, rfl, hfolds, hmid⟩ :=
    Query.exists_midFoldedWalk hrecorded.consistent session?_pairedHeld rfl hopened
  cases hfolds with
  | around hwalk =>
    obtain rfl := Except.ok.inj (adjacency_paired.symm.trans hwalk)
    obtain ⟨hguard, _⟩ := Query.enter_of_iterator hopened
    have hs := (Query.session?_of_iterator hopened ⟨0⟩).trans session?_pairedHeld
    have hcame := (hmid.removeAlong_eq hrecorded.consistent (hguard ▸ hs) (hguard ▸ hwriter)
      [true, true]).1
    rw [pickFolded_paired] at hcame
    exact ⟨_, space', history_heldAfter _, hopened, hwriter, session?_pairedHeld, halves_paired, hcame⟩

end GraphSpace

end PropertyGraph

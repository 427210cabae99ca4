import PropertyGraph.Proofs.Walks.Folded

/-!
# Walks through a view

An iterator through a view looks at all slots from its position on and passes over what the view does
not show. It is opened wherever the view is live and a read hold is granted, and lists what is left of
the slots.
-/

namespace PropertyGraph

open GraphSpace Session

variable {s : Session} {order : List Nat} {view : View} {r : ViewRecord} {space space' : GraphSpace}
  {g : Graph} {hold : Lock.Hold} {position : Nat}

def Session.nodesShown (s : Session) (shows : Nat → Bool) (position : Nat) : List Node :=
  ((s.store.nodes.slots.filter (position ≤ ·)).filter shows).filterMap s.store.node?

def Session.edgesShown (s : Session) (r : ViewRecord) (position : Nat) : List Edge :=
  ((s.store.shownFrom false position).filter (s.recordShowsEdge r)).filterMap s.store.edge?

namespace Session

theorem nodesShown_zero (s : Session) (shows : Nat → Bool) :
    s.nodesShown shows 0 = (s.store.nodes.slots.filter shows).filterMap s.store.node? := by
  rw [nodesShown, List.filter_eq_self.mpr fun n _ => decide_eq_true (Nat.zero_le n)]

theorem edgesShown_zero (s : Session) (r : ViewRecord) : s.edgesShown r 0 =
    (s.store.edges.slots.filter (s.recordShowsEdge r)).filterMap s.store.edge? := by
  have hall : s.store.edges.slots.filter (s.store.showsEdge · false) = s.store.edges.slots :=
    List.filter_eq_self.mpr fun _ _ => rfl
  rw [edgesShown, Store.shownFrom_zero, hall]

end Session

namespace NodeIterator

variable {it : NodeIterator} {shows : Nat → Bool}

theorem seek_cases_of_shows (h : s.store.nodes.arena.Valid)
    (hshows : ∀ slot, it.shows? s slot = some (shows slot)) :
    (∃ it', it.seek s = (none, it') ∧ it'.guard = it.guard ∧ it'.seek s = (none, it') ∧
      s.nodesShown shows it.position = []) ∨
    ∃ node it', it.seek s = (some node, it') ∧ it'.guard = it.guard ∧ it'.filter = it.filter ∧
      s.nodesShown shows it.position = node :: s.nodesShown shows it'.position := by
  have hahead : ∀ {position slot}, s.store.nodes.arena.nextLive? position = some slot →
      s.store.nodes.slots.filter (position ≤ ·) =
        slot :: s.store.nodes.slots.filter (slot + 1 ≤ ·) :=
    h.toLaid.slots_from_of_nextLive?
  fun_induction it.seek s with
  | case1 it hnone =>
    have hover : s.store.nodes.slots.filter (it.position ≤ ·) = [] := h.toLaid.slots_from_eq_nil hnone
    exact .inl ⟨it, rfl, rfl, seek_of_nextLive?_eq_none hnone, by rw [nodesShown, hover]; rfl⟩
  | case2 it slot hslot moved node hnode hshown =>
    rw [hshows, Option.some.injEq] at hshown
    refine .inr ⟨node, _, rfl, rfl, rfl, ?_⟩
    rw [nodesShown, hahead hslot, List.filter_cons_of_pos hshown, List.filterMap_cons_some hnode]
    rfl
  | case3 it slot hslot moved hhidden ih =>
    rw [hshows, Option.some.injEq] at hhidden
    rw [nodesShown, hahead hslot, List.filter_cons_of_neg (Bool.not_eq_true _ ▸ hhidden)]
    exact ih hshows
  | case4 it slot hslot moved hhidden hfree =>
    -- a slot that is found is not free, and whether its node is seen is settled
    obtain ⟨N, hN⟩ := Option.isSome_iff_exists.mp (Arena.nextLive?_eq_some_iff.mp hslot).2.1
    rw [hshows] at hhidden hfree
    cases hshown : shows slot with
    | false => exact (hhidden (congrArg some hshown)).elim
    | true => exact (hfree N.node (congrArg some hshown) (Store.node?_eq_some hN)).elim

theorem lists_of_shows (h : s.store.nodes.arena.Valid)
    (hshows : ∀ slot, it.shows? s slot = some (shows slot))
    (hs : space.session? it.guard.graph = some s) :
    (Iterator.nodes it).Lists space ((s.nodesShown shows it.position).map .node) := by
  induction hahead : s.nodesShown shows it.position generalizing it with
  | nil =>
    rcases seek_cases_of_shows h hshows with ⟨it', hnone, hguard, hend, _⟩ | ⟨_, _, _, _, _, hcons⟩
    · have hover : (Iterator.nodes it).next space = (none, .nodes it') := by
        rw [Iterator.next_nodes, next_of_session? hs, hnone]
        rfl
      have hstill : (Iterator.nodes it').next space = (none, .nodes it') := by
        rw [Iterator.next_nodes, next_of_session? (hguard ▸ hs), hend]
        rfl
      exact Iterator.lists_nil hover hstill
    · rw [hahead] at hcons
      cases hcons
  | cons node rest ih =>
    rcases seek_cases_of_shows h hshows with
      ⟨_, _, _, _, hnil⟩ | ⟨found, it', hsome, hguard, hfilter, hcons⟩
    · rw [hahead] at hnil
      cases hnil
    · rw [hahead, List.cons.injEq] at hcons
      obtain ⟨rfl, hrest⟩ := hcons
      have hnext : (Iterator.nodes it).next space = (some (.node node), .nodes it') := by
        rw [Iterator.next_nodes, next_of_session? hs, hsome]
        rfl
      have hshows' := fun slot => (shows?_eq_of_filter (s := s) hfilter slot).trans (hshows slot)
      exact Iterator.Lists.cons hnext (ih hshows' (hguard ▸ hs) hrest.symm)

end NodeIterator

namespace EdgeIterator

variable {it : EdgeIterator} {steps : Nat}

theorem seekWithin_cases_through (h : s.store.edges.arena.Valid) (hr : s.viewRecord view = .ok r)
    (hfilter : it.filter = some view) (hcursor : it.cursor = .arena position false)
    (hsteps : (s.store.shownFrom false position).length < steps) :
    (∃ it', seekWithin s steps it = (none, it') ∧ it'.guard = it.guard ∧
      it'.cursor.AtEnd s.store ∧ s.edgesShown r position = []) ∨
    ∃ edge it' position', seekWithin s steps it = (some edge, it') ∧ it'.guard = it.guard ∧
      it'.filter = some view ∧ it'.phase = some .outgoing ∧ it'.cursor = .arena position' false ∧
      s.edgesShown r position = edge :: s.edgesShown r position' := by
  induction steps generalizing it position with
  | zero => cases hsteps
  | succ steps ih =>
    rw [seekWithin, hcursor, EdgeCursor.advance]
    rcases s.store.nextShown_of_valid h false position with
      ⟨stop, hnone, hstays, hempty⟩ | ⟨slot, hslot, hlive, _, hahead⟩
    · rw [hnone]
      refine .inl ⟨_, rfl, rfl, ?_, by rw [edgesShown, hempty]; rfl⟩
      rw [EdgeCursor.AtEnd, EdgeCursor.advance, hstays]
      rfl
    · obtain ⟨edge, hedge⟩ := Option.isSome_iff_exists.mp hlive
      rw [hahead, List.length_cons] at hsteps
      rw [hslot, edgesShown, hahead]
      simp only [Option.map_some, hedge]
      rw [shows?_of_viewRecord hr hfilter]
      cases hshown : s.recordShowsEdge r slot with
      | false =>
        rw [List.filter_cons_of_neg (Bool.not_eq_true _ ▸ hshown)]
        have hsteps' := Nat.lt_of_succ_lt_succ hsteps
        change (∃ it', seekWithin s steps { it with cursor := .arena (slot + 1) false } = _ ∧ _) ∨ _
        exact ih hfilter rfl hsteps'
      | true =>
        rw [List.filter_cons_of_pos hshown, List.filterMap_cons_some hedge]
        exact .inr ⟨edge, _, slot + 1, rfl, rfl, hfilter, rfl, rfl, rfl⟩

theorem lists_through (h : s.store.Sound order) (hr : s.viewRecord view = .ok r)
    (hfilter : it.filter = some view) (hcursor : it.cursor = .arena position false)
    (hs : space.session? it.guard.graph = some s) :
    (Iterator.edges it).Lists space
      ((s.edgesShown r position).map (.edge · (some .outgoing))) := by
  have hvalid := h.edges_valid
  have hbound : ∀ position, (s.store.shownFrom false position).length < s.store.walkBound := by
    intro position
    have hlength : s.store.edges.slots.length ≤ s.store.edges.arena.length :=
      Store.length_le hvalid.toLaid.nodup_slots fun i => hvalid.toLaid.mem_slots
    have hfewer := (List.length_filter_le (s.store.showsEdge · false) _).trans
      (List.length_filter_le (position ≤ ·) s.store.edges.slots)
    rw [Store.walkBound, Store.shownFrom]
    omega
  induction hahead : s.edgesShown r position generalizing it position with
  | nil =>
    rcases seekWithin_cases_through hvalid hr hfilter hcursor (hbound position) with
      ⟨it', hnone, hguard, hend, _⟩ | ⟨_, _, _, _, _, _, _, _, hcons⟩
    · have hover : (Iterator.edges it).next space = (none, .edges it') := by
        rw [next_edges_of_seek it hs, seek, hnone]
        rfl
      have hstill : (Iterator.edges it').next space = (none, .edges it') := by
        rw [next_edges_of_seek it' (hguard ▸ hs), seek_of_atEnd hend]
        rfl
      exact Iterator.lists_nil hover hstill
    · rw [hahead] at hcons
      cases hcons
  | cons edge rest ih =>
    rcases seekWithin_cases_through hvalid hr hfilter hcursor (hbound position) with
      ⟨_, _, _, _, hnil⟩ | ⟨found, it', position', hsome, hguard, hfilter', hphase, hcursor', hcons⟩
    · rw [hahead] at hnil
      cases hnil
    · rw [hahead, List.cons.injEq] at hcons
      obtain ⟨rfl, hrest⟩ := hcons
      have hnext : (Iterator.edges it).next space =
          (some (.edge edge (some .outgoing)), .edges it') := by
        rw [next_edges_of_seek it hs, seek, hsome, Option.map_some, hphase]
      exact Iterator.Lists.cons hnext (ih hfilter' hcursor' (hguard ▸ hs) hrest.symm)

end EdgeIterator

/-! ### Opening a walk -/

namespace Query

theorem ask_viewRecord (henter : g.enter .read space = (.ok hold, space'))
    (hs : space.session? g = some s) (hr : s.viewRecord view = .ok r) :
    Guard.ask ⟨g, hold⟩ (·.viewRecord view) space' = (.ok r, space') :=
  ask_of_ok (session?_of_take hs (take_of_enter henter)) hr

theorem iterator_nodesThrough (henter : g.enter .read space = (.ok hold, space'))
    (hs : space.session? g = some s) (hr : s.viewRecord view = .ok r) :
    (nodesThrough view).iterator g space =
      (.ok (.nodes { guard := ⟨g, hold⟩, filter := some view }), space') := by
  change (Iterator.nodes <$> NodeIterator.startThrough { graph := g, view }) space = _
  rw [map_apply, NodeIterator.startThrough, bind_apply, take_of_enter henter]
  simp only [bind_apply, ask_viewRecord henter hs hr]
  rfl

theorem iterator_edgesThrough (henter : g.enter .read space = (.ok hold, space'))
    (hs : space.session? g = some s) (hr : s.viewRecord view = .ok r) :
    (edgesThrough view).iterator g space = (.ok (.edges
      { guard := ⟨g, hold⟩, cursor := .arena 0 false, filter := some view }), space') := by
  change (Iterator.edges <$> EdgeIterator.startThrough { graph := g, view }) space = _
  rw [map_apply, EdgeIterator.startThrough, bind_apply, take_of_enter henter]
  simp only [bind_apply, ask_viewRecord henter hs hr]
  rfl

end Query

end PropertyGraph

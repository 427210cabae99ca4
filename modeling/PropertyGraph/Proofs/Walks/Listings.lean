import PropertyGraph.Proofs.Arena.Reclamation
import PropertyGraph.Proofs.Graph.Locking
import PropertyGraph.Proofs.Session.Editing
import PropertyGraph.Proofs.Walks.Cursors

/-!
# What an iterator lists

Asked again and again in graphs that do not change, an iterator comes to one item after the other and
then to no more. That is its listing. A whole walk answers the listing of the iterator with which it
starts: the steps that it is allowed are always enough.
-/

namespace PropertyGraph

variable {space space' : GraphSpace} {g : Graph} {s : Session} {order : List Nat} {view : View}
  {r : ViewRecord}

/-! ### Listings -/

namespace Iterator

variable {it it' : Iterator} {item : Item} {listing : List Item}

theorem next_nodes (space : GraphSpace) (it : NodeIterator) : (Iterator.nodes it).next space =
    ((it.next space).1.map .node, .nodes (it.next space).2) := rfl

theorem next_edges (space : GraphSpace) (it : EdgeIterator) : (Iterator.edges it).next space =
    ((it.next space).1.map (.edge · (it.next space).2.phase), .edges (it.next space).2) := rfl

/-- What an iterator answers when it is asked after so many times. -/
def answer (space : GraphSpace) (it : Iterator) : Nat → Option Item
  | 0 => (it.next space).1
  | n + 1 => answer space (it.next space).2 n

/-- From an iterator come the items in their order, and then nothing. -/
def Lists (space : GraphSpace) (it : Iterator) (listing : List Item) : Prop :=
  ∀ n, it.answer space n = listing[n]?

theorem lists_nil (h : it.next space = (none, it')) (hend : it'.next space = (none, it')) :
    it.Lists space [] := by
  have hover : ∀ n, it'.answer space n = none := by
    intro n
    induction n with
    | zero => rw [answer, hend]
    | succ n ih => rw [answer, hend, ih]
  intro n
  cases n with
  | zero => rw [answer, h, List.getElem?_nil]
  | succ n => rw [answer, h, hover, List.getElem?_nil]

theorem Lists.cons (h : it.next space = (some item, it')) (hrest : it'.Lists space listing) :
    it.Lists space (item :: listing) := by
  intro n
  cases n with
  | zero => rw [answer, h, List.getElem?_cons_zero]
  | succ n => rw [answer, h, hrest, List.getElem?_cons_succ]

theorem Lists.next_eq_none (h : it.Lists space []) : (it.next space).1 = none := h 0

theorem Lists.next_eq_some (h : it.Lists space (item :: listing)) :
    (it.next space).1 = some item ∧ (it.next space).2.Lists space listing :=
  ⟨h 0, fun n => h (n + 1)⟩

/-- The items that an iterator comes to one after the other, at most `steps` of them. -/
def rest (space : GraphSpace) : Nat → Iterator → List Item
  | 0, _ => []
  | steps + 1, it =>
    match it.next space with
    | (some item, it) => item :: rest space steps it
    | (none, _) => []

theorem Lists.rest_eq {steps : Nat} (h : it.Lists space listing)
    (hsteps : listing.length ≤ steps) : it.rest space steps = listing := by
  induction steps generalizing it listing with
  | zero => rw [List.length_eq_zero_iff.mp (Nat.le_zero.mp hsteps), rest]
  | succ steps ih =>
    rw [rest]
    rcases hnext : it.next space with ⟨item, it'⟩
    cases listing with
    | nil =>
      have hnone := h.next_eq_none
      rw [hnext] at hnone
      subst hnone
      rfl
    | cons first others =>
      obtain ⟨hsome, hrest⟩ := h.next_eq_some
      rw [hnext] at hsome hrest
      subst hsome
      exact congrArg (List.cons first) (ih hrest (Nat.le_of_succ_le_succ hsteps))

theorem Lists.unique {listing' : List Item} (h : it.Lists space listing)
    (h' : it.Lists space listing') : listing = listing' :=
  List.ext_getElem? fun n => (h n).symm.trans (h' n)

end Iterator

/-! ### Nodes -/

/-- Whether a walk through the view, or through none, can be seen at all. -/
def Session.Sees (s : Session) (filter : Option View) : Prop :=
  ∀ view, filter = some view → ∃ r, s.viewRecord view = .ok r

namespace NodeIterator

variable {it it' : NodeIterator}

theorem shows?_of_none (hfilter : it.filter = none) (slot : Nat) : it.shows? s slot = some true := by
  rw [shows?, hfilter]

theorem shows?_of_viewRecord (hr : s.viewRecord view = .ok r) (hfilter : it.filter = some view)
    (slot : Nat) : it.shows? s slot = some (r.showsNode slot) := by
  rw [shows?, hfilter]
  simp only [hr]

theorem shows?_eq_of_filter (hfilter : it'.filter = it.filter) (slot : Nat) :
    it'.shows? s slot = it.shows? s slot := by
  rw [shows?, hfilter, shows?]

theorem exists_shows (hview : s.Sees it.filter) (slot : Nat) :
    ∃ shown, it.shows? s slot = some shown := by
  rw [shows?]
  split
  · exact ⟨true, rfl⟩
  · next view hfilter =>
    obtain ⟨r, hr⟩ := hview view hfilter
    rw [hr]
    exact ⟨r.showsNode slot, rfl⟩

theorem next_of_session? (hs : space.session? it.guard.graph = some s) :
    it.next space = it.seek s := by
  rw [next, hs]

/-! A step is taken from the slot that the arena finds next, if it finds one. -/

theorem seek_of_nextLive?_eq_none (h : s.store.nodes.arena.nextLive? it.position = none) :
    it.seek s = (none, it) := by
  rw [seek]
  split
  · rfl
  · next slot hslot =>
    rw [h] at hslot
    cases hslot

theorem seek_of_nextLive? {slot : Nat}
    (h : s.store.nodes.arena.nextLive? it.position = some slot) :
    it.seek s =
      let moved := { it with position := slot + 1 }
      match it.shows? s slot, s.store.node? slot with
      | some true, some node => (some node, { moved with current := some node })
      | some false, _ => moved.seek s
      | _, _ => (none, moved) := by
  rw [seek]
  split
  · next hnone =>
    rw [h] at hnone
    cases hnone
  · next slot' hslot' =>
    rw [h, Option.some.injEq] at hslot'
    subst hslot'
    rfl

theorem seek_cases (hview : s.Sees it.filter) :
    (∃ it', it.seek s = (none, it') ∧ it'.guard = it.guard ∧ it'.seek s = (none, it')) ∨
    ∃ node it', it.seek s = (some node, it') ∧ it'.guard = it.guard ∧ it'.filter = it.filter ∧
      it.position < it'.position ∧ it'.position ≤ s.store.nodes.arena.length := by
  fun_induction it.seek s with
  | case1 it hnone => exact .inl ⟨it, rfl, rfl, seek_of_nextLive?_eq_none hnone⟩
  | case2 it slot hslot moved node hshown hnode =>
    have hbounds := Arena.bounds_of_nextLive? hslot
    exact .inr ⟨node, _, rfl, rfl, rfl, Nat.lt_succ_of_le hbounds.1, hbounds.2⟩
  | case3 it slot hslot moved hhidden ih =>
    have hbounds := Arena.bounds_of_nextLive? hslot
    have hmoved : moved.position = slot + 1 := rfl
    rcases ih hview with hend | ⟨node, it', hseek, hguard, hfilter, hlt, hle⟩
    · exact .inl hend
    · exact .inr ⟨node, it', hseek, hguard, hfilter, by omega, hle⟩
  | case4 it slot hslot moved hhidden hfree =>
    -- a slot that is found is not free, and the view says whether it shows the node
    obtain ⟨n, hn⟩ := Option.isSome_iff_exists.mp (Arena.nextLive?_eq_some_iff.mp hslot).2.1
    obtain ⟨shown, hshown⟩ := exists_shows hview slot
    cases shown with
    | false => exact (hhidden hshown).elim
    | true => exact (hfree n.node hshown (by rw [Store.node?, NodeTable.get?, hn]; rfl)).elim

def Left (space : GraphSpace) (k : Nat) (it : NodeIterator) : Prop :=
  ∃ s, space.session? it.guard.graph = some s ∧ s.Sees it.filter ∧
    s.store.nodes.arena.length - it.position ≤ k

theorem next_cases {k : Nat} (h : it.Left space k) :
    (∃ it', it.next space = (none, it') ∧ it'.next space = (none, it')) ∨
    ∃ node it' k', it.next space = (some node, it') ∧ k' < k ∧ it'.Left space k' := by
  obtain ⟨s, hs, hview, hlength⟩ := h
  rw [next_of_session? hs]
  rcases seek_cases hview with
    ⟨it', hseek, hguard, hend⟩ | ⟨node, it', hseek, hguard, hfilter, hlt, hle⟩
  · exact .inl ⟨it', hseek, (next_of_session? (hguard ▸ hs)).trans hend⟩
  · refine .inr ⟨node, it', s.store.nodes.arena.length - it'.position, hseek, by omega, s, ?_, ?_,
      Nat.le_refl _⟩
    · rw [hguard, hs]
    · rwa [hfilter]

theorem map_rest (space : GraphSpace) (steps : Nat) (it : NodeIterator) :
    (it.rest space steps).map .node = (Iterator.nodes it).rest space steps := by
  induction steps generalizing it with
  | zero => rfl
  | succ steps ih =>
    rw [rest, Iterator.rest, Iterator.next_nodes]
    rcases it.next space with ⟨_ | node, it'⟩
    · rfl
    · exact congrArg (List.cons _) (ih it')

end NodeIterator

/-! ### Edges -/

namespace EdgeIterator

variable {it : EdgeIterator}

theorem shows?_of_none (hfilter : it.filter = none) (slot : Nat) : it.shows? s slot = some true := by
  rw [shows?, hfilter]

theorem shows?_of_viewRecord (hr : s.viewRecord view = .ok r) (hfilter : it.filter = some view)
    (slot : Nat) : it.shows? s slot = some (s.recordShowsEdge r slot) := by
  rw [shows?, hfilter]
  simp only [hr]

theorem exists_shows (hview : s.Sees it.filter) (slot : Nat) :
    ∃ shown, it.shows? s slot = some shown := by
  rw [shows?]
  split
  · exact ⟨true, rfl⟩
  · next view hfilter =>
    obtain ⟨r, hr⟩ := hview view hfilter
    rw [hr]
    exact ⟨s.recordShowsEdge r slot, rfl⟩

theorem seekWithin_cases (hs : s.store.Sound order) {k steps : Nat} (hview : s.Sees it.filter)
    (hleft : it.cursor.Left s.store k) (hsteps : k < steps) (hbound : k < s.store.walkBound) :
    (∃ it', seekWithin s steps it = (none, it') ∧ it'.guard = it.guard ∧
      it'.cursor.AtEnd s.store) ∨
    ∃ edge it' k', seekWithin s steps it = (some edge, it') ∧ it'.guard = it.guard ∧
      it'.filter = it.filter ∧ k' < k ∧ it'.cursor.Left s.store k' := by
  induction steps generalizing it k with
  | zero => cases hsteps
  | succ steps ih =>
    rw [seekWithin]
    rcases EdgeCursor.advance_cases hs hleft hbound with
      ⟨cursor, hadvance, hend⟩ | ⟨⟨slot, phase⟩, cursor, k', hadvance, hlt, hleft'⟩
    · rw [hadvance]
      exact .inl ⟨_, rfl, rfl, hend⟩
    · -- whatever is not stored, or not shown, has come closer to the end
      have hpassed := ih (show s.Sees { it with cursor }.filter from hview) hleft' (by omega) (by omega)
      have hmore : (∃ it', seekWithin s steps { it with cursor } = (none, it') ∧
            it'.guard = it.guard ∧ it'.cursor.AtEnd s.store) ∨
          ∃ edge it' k', seekWithin s steps { it with cursor } = (some edge, it') ∧
            it'.guard = it.guard ∧ it'.filter = it.filter ∧ k' < k ∧
            it'.cursor.Left s.store k' := by
        rcases hpassed with hend | ⟨edge, it', k'', hseek, hguard, hfilter, hlt', hleft''⟩
        · exact .inl hend
        · exact .inr ⟨edge, it', k'', hseek, hguard, hfilter, by omega, hleft''⟩
      rw [hadvance]
      simp only
      cases s.store.edge? slot with
      | none => exact hmore
      | some edge =>
        obtain ⟨shown, hshown⟩ := exists_shows hview slot
        rw [hshown]
        cases shown with
        | false => exact hmore
        | true => exact .inr ⟨edge, _, k', rfl, rfl, rfl, hlt, hleft'⟩

theorem seek_of_atEnd (h : it.cursor.AtEnd s.store) : it.seek s = (none, it) := by
  rw [seek, Store.walkBound, Nat.mul_succ, seekWithin, h]

def Left (space : GraphSpace) (k : Nat) (it : EdgeIterator) : Prop :=
  ∃ s order, space.session? it.guard.graph = some s ∧ s.store.Sound order ∧ s.Sees it.filter ∧
    it.cursor.Left s.store k ∧ k < s.store.walkBound

theorem next_cases {k : Nat} (h : it.Left space k) :
    (∃ it', it.next space = (none, it') ∧ it'.next space = (none, it')) ∨
    ∃ edge it' k', it.next space = (some edge, it') ∧ k' < k ∧ it'.Left space k' := by
  obtain ⟨s, order, hs, hsound, hview, hleft, hbound⟩ := h
  rw [next, hs]
  rcases seekWithin_cases hsound hview hleft hbound hbound with
    ⟨it', hseek, hguard, hend⟩ | ⟨edge, it', k', hseek, hguard, hfilter, hlt, hleft'⟩
  · refine .inl ⟨it', hseek, ?_⟩
    rw [next, hguard, hs]
    exact seek_of_atEnd hend
  · refine .inr ⟨edge, it', k', hseek, hlt, s, order, ?_, hsound, ?_, hleft', by omega⟩
    · rw [hguard, hs]
    · rwa [hfilter]

theorem map_rest (space : GraphSpace) (steps : Nat) (it : EdgeIterator) :
    (it.rest space steps).map (fun x => .edge x.1 x.2) =
      (Iterator.edges it).rest space steps := by
  induction steps generalizing it with
  | zero => rfl
  | succ steps ih =>
    rw [rest, Iterator.rest, Iterator.next_edges]
    rcases it.next space with ⟨_ | edge, it'⟩
    · rfl
    · exact congrArg (List.cons _) (ih it')

end EdgeIterator

/-! ### Either kind -/

namespace Iterator

variable {it : Iterator}

def Left (space : GraphSpace) (k : Nat) : Iterator → Prop
  | .nodes it => it.Left space k
  | .edges it => it.Left space k

theorem next_cases {k : Nat} (h : it.Left space k) :
    (∃ it', it.next space = (none, it') ∧ it'.next space = (none, it')) ∨
    ∃ item it' k', it.next space = (some item, it') ∧ k' < k ∧ it'.Left space k' := by
  cases it with
  | nodes it =>
    rcases NodeIterator.next_cases h with ⟨it', hnone, hend⟩ | ⟨node, it', k', hsome, hlt, hleft⟩
    · exact .inl ⟨.nodes it', by rw [next_nodes, hnone]; rfl, by rw [next_nodes, hend]; rfl⟩
    · exact .inr ⟨.node node, .nodes it', k', by rw [next_nodes, hsome]; rfl, hlt, hleft⟩
  | edges it =>
    rcases EdgeIterator.next_cases h with ⟨it', hnone, hend⟩ | ⟨edge, it', k', hsome, hlt, hleft⟩
    · exact .inl ⟨.edges it', by rw [next_edges, hnone]; rfl, by rw [next_edges, hend]; rfl⟩
    · exact .inr ⟨.edge edge it'.phase, .edges it', k', by rw [next_edges, hsome]; rfl, hlt, hleft⟩

theorem exists_lists {k : Nat} (h : it.Left space k) :
    ∃ listing, listing.length ≤ k ∧ it.Lists space listing := by
  induction k using Nat.strong_induction_on generalizing it with
  | _ k ih =>
    rcases next_cases h with ⟨it', hnone, hend⟩ | ⟨item, it', k', hsome, hlt, hleft⟩
    · exact ⟨[], Nat.zero_le k, lists_nil hnone hend⟩
    · obtain ⟨listing, hlength, hlists⟩ := ih k' hlt hleft
      refine ⟨item :: listing, ?_, hlists.cons hsome⟩
      rw [List.length_cons]
      omega

end Iterator

/-! ### What the starts come to -/

open GraphSpace Session

namespace NodeIterator

variable {start : GraphAction NodeIterator} {it : NodeIterator}

theorem exists_of_start (h : NodeIterator.start g space = (.ok it, space')) :
    ∃ guard, Guard.take g .read space = (.ok guard, space') ∧ it = { guard } := by
  obtain ⟨guard, between, htake, hdone⟩ := exists_of_bind h
  cases hdone
  exact ⟨guard, htake, rfl⟩

theorem exists_of_startThrough (hs : space.session? g = some s)
    (h : NodeIterator.startThrough { graph := g, view } space = (.ok it, space')) :
    ∃ guard r, Guard.take g .read space = (.ok guard, space') ∧
      it = { guard, filter := some view } ∧ s.viewRecord view = .ok r := by
  obtain ⟨guard, _, htake, hrest⟩ := exists_of_bind h
  obtain ⟨r, _, hask, hdone⟩ := exists_of_bind hrest
  obtain ⟨rfl, hr⟩ := answer_of_ask (session?_of_take hs htake) hask
  cases hdone
  exact ⟨guard, r, htake, rfl, hr⟩

theorem walk_of_start (h : start space = (.ok it, space'))
    (hs : space'.session? it.guard.graph = some s) :
    (NodeIterator.walk start space).1 = .ok (it.rest space' s.store.nodes.arena.length) := by
  have hanswer := fst_of_held NodeIterator.guard (fun it space => it.rest space
    (((space.session? it.guard.graph).map (·.store.nodes.arena.length)).getD 0)) h hs
  rw [hs] at hanswer
  exact hanswer

end NodeIterator

namespace EdgeIterator

variable {start : GraphAction EdgeIterator} {it : EdgeIterator}

theorem exists_of_start {folded : Bool}
    (h : EdgeIterator.start g folded space = (.ok it, space')) :
    ∃ guard, Guard.take g .read space = (.ok guard, space') ∧
      it = { guard, cursor := .arena 0 folded } := by
  obtain ⟨guard, between, htake, hdone⟩ := exists_of_bind h
  cases hdone
  exact ⟨guard, htake, rfl⟩

theorem exists_of_startThrough (hs : space.session? g = some s)
    (h : EdgeIterator.startThrough { graph := g, view } space = (.ok it, space')) :
    ∃ guard r, Guard.take g .read space = (.ok guard, space') ∧
      it = { guard, cursor := .arena 0 false, filter := some view } ∧
      s.viewRecord view = .ok r := by
  obtain ⟨guard, _, htake, hrest⟩ := exists_of_bind h
  obtain ⟨r, _, hask, hdone⟩ := exists_of_bind hrest
  obtain ⟨rfl, hr⟩ := answer_of_ask (session?_of_take hs htake) hask
  cases hdone
  exact ⟨guard, r, htake, rfl, hr⟩

theorem exists_of_startAround {node : Node} {direction : Direction} {label : Option String}
    {folded : Bool} (hs : space.session? g = some s)
    (h : EdgeIterator.startAround g node direction label folded space = (.ok it, space')) :
    ∃ guard slot, Guard.take g .read space = (.ok guard, space') ∧
      it = { guard, cursor := .adjacent (.around s.store slot direction label folded) } ∧
      s.resolveNode node = .ok slot := by
  obtain ⟨guard, _, htake, hrest⟩ := exists_of_bind h
  obtain ⟨cursor, _, hask, hdone⟩ := exists_of_bind hrest
  obtain ⟨rfl, hcursor⟩ := answer_of_ask (session?_of_take hs htake) hask
  cases hdone
  cases hslot : s.resolveNode node with
  | error fault =>
    rw [hslot] at hcursor
    cases hcursor
  | ok slot =>
    rw [hslot] at hcursor
    cases hcursor
    exact ⟨guard, slot, htake, rfl, rfl⟩

theorem exists_of_startAroundThrough {node : Node} {direction : Direction}
    (hs : space.session? g = some s)
    (h : EdgeIterator.startAroundThrough { graph := g, view } node direction space =
      (.ok it, space')) :
    ∃ guard r slot, Guard.take g .read space = (.ok guard, space') ∧
      it = { guard, cursor := .adjacent (.around s.store slot direction none false),
             filter := some view } ∧
      s.viewRecord view = .ok r ∧ s.resolveNode node = .ok slot := by
  obtain ⟨guard, _, htake, hrest⟩ := exists_of_bind h
  obtain ⟨cursor, _, hask, hdone⟩ := exists_of_bind hrest
  obtain ⟨rfl, hcursor⟩ := answer_of_ask (session?_of_take hs htake) hask
  cases hdone
  cases hr : s.viewRecord view with
  | error fault =>
    rw [hr] at hcursor
    cases hcursor
  | ok r =>
    cases hslot : s.resolveNode node with
    | error fault =>
      rw [hr, hslot] at hcursor
      cases hcursor
    | ok slot =>
      rw [hr, hslot] at hcursor
      cases hcursor
      exact ⟨guard, r, slot, htake, rfl, rfl, rfl⟩

theorem walk_of_start (h : start space = (.ok it, space'))
    (hs : space'.session? it.guard.graph = some s) :
    (EdgeIterator.walk start space).1 = .ok (it.rest space' s.store.walkBound) := by
  have hanswer := fst_of_held EdgeIterator.guard (fun it space => it.rest space
    (((space.session? it.guard.graph).map (·.store.walkBound)).getD 0)) h hs
  rw [hs] at hanswer
  exact hanswer

end EdgeIterator

/-! ### Queries -/

namespace Query

variable {q : Query} {it : Iterator}

/-- How an iterator begins, in the session of the graph of its guard: at the beginning of its arena, or
of the chains around a node that is stored. -/
inductive Begins (s : Session) (guard : Guard) : Iterator → Prop
  | nodes (filter : Option View) (hview : s.Sees filter) :
    Begins s guard (.nodes { guard, filter })
  | edges (filter : Option View) (folded : Bool) (hview : s.Sees filter) :
    Begins s guard (.edges { guard, cursor := .arena 0 folded, filter })
  | around (filter : Option View) (slot : Nat) (direction : Direction) (label : Option String)
    (folded : Bool) (hview : s.Sees filter) (hslot : (s.store.nodes.get? slot).isSome) :
    Begins s guard (.edges
      { guard, cursor := .adjacent (.around s.store slot direction label folded), filter })

theorem exists_of_iterator (h : q.iterator g space = (.ok it, space')) (hs : space.session? g = some s) :
    ∃ guard, Guard.take g .read space = (.ok guard, space') ∧ Begins s guard it := by
  have hsees : ∀ {view r}, s.viewRecord view = .ok r → s.Sees (some view) := by
    rintro view r hr _ ⟨⟩
    exact ⟨r, hr⟩
  have hnone : s.Sees none := nofun
  have hstored : ∀ {node slot}, s.resolveNode node = .ok slot →
      (s.store.nodes.get? slot).isSome := by
    intro node slot hslot
    have hnode := node?_of_resolveNode hslot
    rw [Store.node?, Option.map_eq_some_iff] at hnode
    obtain ⟨n, hn, _⟩ := hnode
    rw [hn]
    rfl
  cases q with
  | nodes =>
    obtain ⟨it, hstart, rfl⟩ := exists_of_map h
    obtain ⟨guard, htake, rfl⟩ := NodeIterator.exists_of_start hstart
    exact ⟨guard, htake, .nodes none hnone⟩
  | nodesThrough view =>
    obtain ⟨it, hstart, rfl⟩ := exists_of_map h
    obtain ⟨guard, r, htake, rfl, hr⟩ := NodeIterator.exists_of_startThrough hs hstart
    exact ⟨guard, htake, .nodes (some view) (hsees hr)⟩
  | edges folded =>
    obtain ⟨it, hstart, rfl⟩ := exists_of_map h
    obtain ⟨guard, htake, rfl⟩ := EdgeIterator.exists_of_start hstart
    exact ⟨guard, htake, .edges none folded hnone⟩
  | edgesThrough view =>
    obtain ⟨it, hstart, rfl⟩ := exists_of_map h
    obtain ⟨guard, r, htake, rfl, hr⟩ := EdgeIterator.exists_of_startThrough hs hstart
    exact ⟨guard, htake, .edges (some view) false (hsees hr)⟩
  | around node direction label folded =>
    obtain ⟨it, hstart, rfl⟩ := exists_of_map h
    obtain ⟨guard, slot, htake, rfl, hslot⟩ := EdgeIterator.exists_of_startAround hs hstart
    exact ⟨guard, htake, .around none slot direction label folded hnone (hstored hslot)⟩
  | aroundThrough view node direction =>
    obtain ⟨it, hstart, rfl⟩ := exists_of_map h
    obtain ⟨guard, r, slot, htake, rfl, hr, hslot⟩ :=
      EdgeIterator.exists_of_startAroundThrough hs hstart
    exact ⟨guard, htake, .around (some view) slot direction none false (hsees hr) (hstored hslot)⟩

open GraphAction in
theorem opens_iterator (q : Query) (g : Graph) : Opens (q.iterator g) g Iterator.guard := by
  cases q with
  | nodes =>
    have hstart : Opens (NodeIterator.start g) g NodeIterator.guard :=
      (opens_take g).bind_pure fun _ => rfl
    exact hstart.map fun _ => rfl
  | nodesThrough view =>
    have hstart : Opens (NodeIterator.startThrough { graph := g, view }) g NodeIterator.guard :=
      (opens_take g).ask _ fun _ _ => rfl
    exact hstart.map fun _ => rfl
  | edges folded =>
    have hstart : Opens (EdgeIterator.start g folded) g EdgeIterator.guard :=
      (opens_take g).bind_pure fun _ => rfl
    exact hstart.map fun _ => rfl
  | edgesThrough view =>
    have hstart : Opens (EdgeIterator.startThrough { graph := g, view }) g EdgeIterator.guard :=
      (opens_take g).ask _ fun _ _ => rfl
    exact hstart.map fun _ => rfl
  | around node direction label folded =>
    have hstart : Opens (EdgeIterator.startAround g node direction label folded) g
        EdgeIterator.guard := (opens_take g).ask _ fun _ _ => rfl
    exact hstart.map fun _ => rfl
  | aroundThrough view node direction =>
    have hstart : Opens (EdgeIterator.startAroundThrough { graph := g, view } node direction) g
        EdgeIterator.guard := (opens_take g).ask _ fun _ _ => rfl
    exact hstart.map fun _ => rfl

theorem enter_of_iterator (h : q.iterator g space = (.ok it, space')) :
    it.guard.graph = g ∧ g.enter .read space = (.ok it.guard.hold, space') := by
  rcases q.opens_iterator g space with ⟨fault, _, hfault, _⟩ | ⟨it', between, hmade, hentered⟩
  · rw [h] at hfault
    cases hfault
  · rw [h] at hmade
    cases hmade
    exact hentered

theorem session?_of_iterator (h : q.iterator g space = (.ok it, space')) (g' : Graph) :
    space'.session? g' = space.session? g' := by
  have hsame := (sameSessions_enter g .read space).session? g'
  rwa [(enter_of_iterator h).2] at hsame

theorem Begins.left {guard : Guard} (h : Begins s guard it) (hs : s.store.Sound order)
    (hsession : space.session? guard.graph = some s) :
    ∃ k, it.Left space k ∧ match it with
      | .nodes _ => k = s.store.nodes.arena.length
      | .edges _ => k < s.store.walkBound := by
  have hbound : 2 * s.store.edges.arena.length < s.store.walkBound := by
    rw [Store.walkBound]
    omega
  cases h with
  | nodes filter hview => exact ⟨_, ⟨s, hsession, hview, Nat.le_refl _⟩, rfl⟩
  | edges filter folded hview =>
    exact ⟨_, ⟨s, order, hsession, hs, hview, Nat.le_mul_of_pos_left _ Nat.two_pos, hbound⟩, hbound⟩
  | around filter slot direction label folded hview hslot =>
    obtain ⟨N, hN⟩ := Option.isSome_iff_exists.mp hslot
    exact ⟨_, ⟨s, order, hsession, hs, hview,
      AdjacencyCursor.left_around hs hN direction label folded, hbound⟩, hbound⟩

theorem exists_list (hs : space.session? g = some s) (hsound : s.store.Sound order)
    (h : q.iterator g space = (.ok it, space')) :
    ∃ listing, (q.list g space).1 = .ok listing ∧ it.Lists space' listing := by
  obtain ⟨guard, htake, hbegins⟩ := exists_of_iterator h hs
  obtain ⟨hguard, henter⟩ := exists_of_take htake
  have hs' : space'.session? guard.graph = some s := by
    have hsame := (sameSessions_enter g .read space).session? g
    rw [henter] at hsame
    rw [hguard, hsame, hs]
  obtain ⟨k, hleft, hbound⟩ := hbegins.left hsound hs'
  obtain ⟨listing, hlength, hlists⟩ := Iterator.exists_lists hleft
  refine ⟨listing, ?_, hlists⟩
  rw [iterator] at h
  rw [list]
  cases hstart : q.start g with
  | inl start =>
    rw [hstart] at h
    obtain ⟨it, hmade, rfl⟩ := exists_of_map h
    have hs' : space'.session? it.guard.graph = some s := by cases hbegins; exact hs'
    rw [map_fst, NodeIterator.walk_of_start hmade hs']
    exact congrArg Except.ok ((NodeIterator.map_rest _ _ it).trans (hlists.rest_eq (by omega)))
  | inr start =>
    rw [hstart] at h
    obtain ⟨it, hmade, rfl⟩ := exists_of_map h
    have hs' : space'.session? it.guard.graph = some s := by cases hbegins <;> exact hs'
    rw [map_fst, EdgeIterator.walk_of_start hmade hs']
    exact congrArg Except.ok ((EdgeIterator.map_rest _ _ it).trans (hlists.rest_eq (by omega)))

/-! ### Opening an iterator -/

theorem iterator_nodes {hold : Lock.Hold} (henter : g.enter .read space = (.ok hold, space')) :
    nodes.iterator g space = (.ok (.nodes { guard := ⟨g, hold⟩ }), space') := by
  change (Iterator.nodes <$> NodeIterator.start g) space = _
  rw [map_apply, NodeIterator.start, bind_apply, take_of_enter henter]
  rfl

theorem iterator_around {hold : Lock.Hold} {node : Node} {slot : Nat}
    (henter : g.enter .read space = (.ok hold, space')) (hs : space.session? g = some s)
    (hslot : s.resolveNode node = .ok slot) (direction : Direction) (label : Option String)
    (folded : Bool) : (around node direction label folded).iterator g space =
      (.ok (.edges { guard := ⟨g, hold⟩
                     cursor := .adjacent (.around s.store slot direction label folded) }), space') := by
  have hasked : Guard.ask ⟨g, hold⟩ (fun s => do
      return AdjacencyCursor.around s.store (← s.resolveNode node) direction label folded) space' =
        (.ok (.around s.store slot direction label folded), space') := by
    refine ask_of_ok (session?_of_take hs (take_of_enter henter)) ?_
    rw [hslot]
    rfl
  change (Iterator.edges <$> EdgeIterator.startAround g node direction label folded) space = _
  rw [map_apply, EdgeIterator.startAround, bind_apply, take_of_enter henter]
  simp only [bind_apply, hasked]
  rfl

end Query

end PropertyGraph

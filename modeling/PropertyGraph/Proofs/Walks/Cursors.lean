import PropertyGraph.Proofs.Store.Linking
import PropertyGraph.Session.Walk

/-!
# Where a walk around a node leads

A cursor has ahead of it what is left of the chain that it is on, the chains of the labels to come,
and in a walk both ways the chains of the other half. In a store that does not change a step takes
the first edge of that list, so every walk comes to an end, and long before its steps run out.
-/

namespace PropertyGraph

variable {s : Store} {order : List Nat} {N : NodeSlot} {p : Phase}

namespace Store

theorem chainFrom_succ {prev start : Option Nat} {l : List Nat} {steps : Nat}
    (h : Linked (s.link? p) prev start l) (hsteps : l.length ≤ steps) :
    s.chainFrom p (steps + 1) start = s.chainFrom p steps start := by
  induction l generalizing prev start steps with
  | nil =>
    rw [show start = none from h]
    cases steps <;> rfl
  | cons slot rest ih =>
    obtain ⟨rfl, link, hlink, _, hrest⟩ := h
    obtain ⟨e, he, rfl⟩ := Option.map_eq_some_iff.mp hlink
    cases steps with
    | zero => cases hsteps
    | succ steps =>
      rw [chainFrom, he, chainFrom, he]
      exact congrArg _ (ih hrest (Nat.le_of_succ_le_succ hsteps))

/-- The edges on the chains of a node for a phase, of the labels from one up to another. -/
def chainsWithin (s : Store) (N : NodeSlot) (p : Phase) (label stop : Nat) :
    List (Nat × EdgeSlot) :=
  (((N.heads.get p).toList.take stop).drop label).flatMap (s.chainFrom p s.edges.arena.length)

theorem length_chainsWithin_le (s : Store) (N : NodeSlot) (p : Phase) (label stop : Nat) :
    (s.chainsWithin N p label stop).length ≤ (s.chains N p).length :=
  (((List.drop_sublist _ _).trans (List.take_sublist _ _)).flatMap _).length_le

theorem chainsWithin_cons {label stop : Nat} (hlt : label < stop) :
    s.chainsWithin N p label stop = s.chainFrom p s.edges.arena.length (N.head? p label) ++
      s.chainsWithin N p (label + 1) stop := by
  unfold chainsWithin
  by_cases hsize : label < (N.heads.get p).size
  · have hlength : label < ((N.heads.get p).toList.take stop).length := by
      rw [List.length_take, Array.length_toList]
      omega
    rw [List.drop_eq_getElem_cons hlength, List.flatMap_cons, List.getElem_take,
      Array.getElem_toList, NodeSlot.head?, Array.getElem?_eq_getElem hsize, Option.join_some]
  · have hlength : ((N.heads.get p).toList.take stop).length ≤ label := by
      rw [List.length_take, Array.length_toList]
      omega
    rw [List.drop_eq_nil_of_le hlength, List.drop_eq_nil_of_le (Nat.le_succ_of_le hlength),
      NodeSlot.head?, Array.getElem?_eq_none (Nat.le_of_not_lt hsize), Option.join_none,
      chainFrom_none]
    rfl

theorem chainsWithin_of_le {label stop : Nat} (h : stop ≤ label) :
    s.chainsWithin N p label stop = [] := by
  rw [chainsWithin, List.drop_eq_nil_of_le ((List.length_take_le _ _).trans h), List.flatMap_nil]

end Store

namespace AdjacencyCursor

variable {c : AdjacencyCursor}

/-- A head that is found begins the next chain that is not empty. -/
theorem findHead_cases (s : Store) (N : NodeSlot) (p : Phase) (label stop : Nat) :
    (findHead (N.heads.get p) label stop = none ∧ s.chainsWithin N p label stop = []) ∨
    ∃ head found, findHead (N.heads.get p) label stop = some (head, found + 1) ∧
      N.head? p found = some head ∧ s.chainsWithin N p label stop =
        s.chainFrom p s.edges.arena.length (some head) ++ s.chainsWithin N p (found + 1) stop := by
  fun_induction findHead (N.heads.get p) label stop with
  | case1 label hlt head hhead =>
    refine .inr ⟨head, label, rfl, hhead, ?_⟩
    rw [Store.chainsWithin_cons hlt, NodeSlot.head?, hhead]
  | case2 label hlt hnone ih =>
    rw [Store.chainsWithin_cons hlt, NodeSlot.head?, hnone, Store.chainFrom_none, List.nil_append]
    exact ih
  | case3 label hge => exact .inl ⟨rfl, Store.chainsWithin_of_le (Nat.le_of_not_lt hge)⟩

/-- The labels whose chains a cursor walks for a phase end before this one. -/
def stop (c : AdjacencyCursor) (N : NodeSlot) (p : Phase) : Nat :=
  match c.label with
  | some label => label + 1
  | none => (N.heads.get p).size

/-- The edges on the chains of the labels to come, of the present phase. -/
def inPhase (s : Store) (N : NodeSlot) (c : AdjacencyCursor) : List (Phase × Nat × EdgeSlot) :=
  (s.chainsWithin N c.phase c.nextLabel (c.stop N c.phase)).map (c.phase, ·)

/-- The edges of the half that is still to come, if there is one. -/
def inOtherHalf (s : Store) (N : NodeSlot) (c : AdjacencyCursor) : List (Phase × Nat × EdgeSlot) :=
  if c.phase = .outgoing ∧ c.direction = .both then c.turn.inPhase s N else []

/-- The edges that a cursor has ahead of it, with their phases. -/
def ahead (s : Store) (N : NodeSlot) (c : AdjacencyCursor) : List (Phase × Nat × EdgeSlot) :=
  (s.chainFrom c.phase s.edges.arena.length c.next).map (c.phase, ·) ++
    (c.inPhase s N ++ c.inOtherHalf s N)

/-- A cursor is under way around a node, on one of its chains or between two. -/
structure UnderWay (s : Store) (N : NodeSlot) (c : AdjacencyCursor) : Prop where
  node : s.nodes.get? c.node = some N
  linked : ∃ prev l, Linked (s.link? c.phase) prev c.next l ∧ l.length ≤ s.edges.arena.length
  unfinished : c.done = false

theorem underWay_between (hnode : s.nodes.get? c.node = some N) (hnext : c.next = none)
    (hdone : c.done = false) : c.UnderWay s N :=
  ⟨hnode, ⟨none, [], hnext, Nat.zero_le _⟩, hdone⟩

theorem ahead_between (hnext : c.next = none) :
    c.ahead s N = c.inPhase s N ++ c.inOtherHalf s N := by
  rw [ahead, hnext, Store.chainFrom_none]
  rfl

namespace UnderWay

theorem step_of_next (h : c.UnderWay s N) {slot : Nat} (hnext : c.next = some slot) :
    ∃ e c', c.step s = (some (slot, e), c') ∧ c'.UnderWay s N ∧
      c.ahead s N = (c'.phase, slot, e) :: c'.ahead s N := by
  obtain ⟨hnode, ⟨prev, l, hlinked, hlength⟩, hdone⟩ := h
  rw [hnext] at hlinked
  cases l with
  | nil => cases hlinked
  | cons first rest =>
    obtain ⟨hfirst, link, hlink, _, hrest⟩ := hlinked
    cases hfirst
    obtain ⟨e, he, rfl⟩ := Option.map_eq_some_iff.mp hlink
    obtain ⟨length, hsize⟩ := Nat.exists_eq_add_one_of_ne_zero (n := s.edges.arena.length)
      (Nat.ne_of_gt (Nat.lt_of_lt_of_le (Nat.succ_pos rest.length) hlength))
    refine ⟨e, { c with next := e.next? c.phase }, ?_,
      ⟨hnode, ⟨_, rest, hrest, Nat.le_of_succ_le hlength⟩, hdone⟩, ?_⟩
    · rw [step, if_neg (Bool.eq_false_iff.mp hdone)]
      simp only [hnext, Option.isSome_some, if_true, Option.bind_some, he, Option.map_some]
    · have hread : s.chainFrom c.phase s.edges.arena.length (some slot) =
          (slot, e) :: s.chainFrom c.phase s.edges.arena.length (e.next? c.phase) := by
        rw [hsize] at hlength ⊢
        refine Eq.trans ?_ (congrArg _
          (Store.chainFrom_succ hrest (Nat.le_of_succ_le_succ hlength)).symm)
        rw [Store.chainFrom, he]
        rfl
      rw [ahead, hnext, hread]
      rfl

end UnderWay

theorem openInPhase_cases (hs : s.Sound order) (h : c.UnderWay s N) :
    (c.openInPhase N = none ∧ c.inPhase s N = []) ∨
    ∃ slot c', c.openInPhase N = some c' ∧ c'.next = some slot ∧ c'.UnderWay s N ∧
      c'.ahead s N = c.inPhase s N ++ c.inOtherHalf s N := by
  rw [openInPhase]
  change (Option.map _ (findHead _ c.nextLabel (c.stop N c.phase)) = none ∧ _) ∨
    ∃ slot c', Option.map _ (findHead _ c.nextLabel (c.stop N c.phase)) = some c' ∧ _
  rcases findHead_cases s N c.phase c.nextLabel (c.stop N c.phase) with
    ⟨hfind, hnone⟩ | ⟨head, found, hfind, hhead, hchains⟩
  · rw [hfind, inPhase, hnone]
    exact .inl ⟨rfl, rfl⟩
  · rw [hfind]
    refine .inr ⟨head, _, rfl, rfl,
      ⟨h.node, ⟨none, order.filter (s.onChain c.phase c.node found), ?_, ?_⟩, h.unfinished⟩, ?_⟩
    · have hlinked := hs.chained c.phase c.node N found h.node
      rw [hhead] at hlinked
      exact hlinked
    · exact (List.length_filter_le _ _).trans (Store.length_le hs.nodup hs.mem_iff_get?)
    · rw [inPhase, hchains, List.map_append, List.append_assoc]
      rfl

theorem openChain_cases (hs : s.Sound order) (h : c.UnderWay s N) (hnext : c.next = none) :
    (c.openChain s = none ∧ c.ahead s N = []) ∨
    ∃ slot c', c.openChain s = some c' ∧ c'.next = some slot ∧ c'.UnderWay s N ∧
      c'.ahead s N = c.ahead s N := by
  rw [openChain, h.node, ahead_between hnext]
  simp only [Option.bind_eq_bind, Option.bind_some]
  rcases openInPhase_cases hs h with ⟨hopen, hnone⟩ | ⟨slot, c', hopen, hfound⟩
  · rw [hopen, hnone, List.nil_append, inOtherHalf]
    by_cases hhalf : c.phase = .outgoing ∧ c.direction = .both
    · -- the walk turns to the incoming half, behind which there is none
      have hturned : c.turn.UnderWay s N := underWay_between h.node hnext h.unfinished
      have hlast : c.turn.inOtherHalf s N = [] := if_neg fun hturn => nomatch hturn.1
      rcases openInPhase_cases hs hturned with ⟨hopen', hnone'⟩ | ⟨slot, c', hopen', hfound⟩
      · simp only [guard, if_pos hhalf]
        exact .inl ⟨hopen', hnone'⟩
      · rw [hlast, List.append_nil] at hfound
        simp only [guard, if_pos hhalf]
        exact .inr ⟨slot, c', hopen', hfound⟩
    · simp only [guard, if_neg hhalf]
      exact .inl ⟨rfl, trivial⟩
  · rw [hopen]
    exact .inr ⟨slot, c', rfl, hfound⟩

theorem step_cases (hs : s.Sound order) (h : c.UnderWay s N) :
    (c.step s = (none, { c with done := true }) ∧ c.ahead s N = []) ∨
    ∃ slot e c', c.step s = (some (slot, e), c') ∧ c'.UnderWay s N ∧
      c.ahead s N = (c'.phase, slot, e) :: c'.ahead s N := by
  cases hnext : c.next with
  | some slot =>
    obtain ⟨e, c', hstep⟩ := h.step_of_next hnext
    exact .inr ⟨slot, e, c', hstep⟩
  | none =>
    rcases openChain_cases hs h hnext with ⟨hopen, hnone⟩ | ⟨slot, opened, hopen, hfound, hway, hahead⟩
    · refine .inl ⟨?_, hnone⟩
      rw [step, if_neg (Bool.eq_false_iff.mp h.unfinished)]
      simp only [hnext, Option.isSome_none, Bool.false_eq_true, if_false, hopen]
    · obtain ⟨e, c', hstep, hway', hrest⟩ := hway.step_of_next hfound
      refine .inr ⟨slot, e, c', ?_, hway', hahead ▸ hrest⟩
      rw [← hstep, step, if_neg (Bool.eq_false_iff.mp h.unfinished), step,
        if_neg (Bool.eq_false_iff.mp hway.unfinished)]
      simp only [hnext, Option.isSome_none, Bool.false_eq_true, if_false, hopen, hfound,
        Option.isSome_some, if_true]

theorem length_ahead_start_le (hs : s.Sound order) {node : Nat} (hN : s.nodes.get? node = some N)
    (direction : Direction) (label : Option Nat) (folded : Bool) :
    ((start node direction label folded).ahead s N).length ≤ 2 * s.edges.arena.length := by
  have hphase : ∀ c : AdjacencyCursor, (c.inPhase s N).length ≤ s.edges.arena.length := by
    intro c
    rw [inPhase, List.length_map]
    exact (s.length_chainsWithin_le N _ _ _).trans
      (Store.length_chains_le hs.chained hs.nodup hs.mem_iff_get? hN)
  have hother : ∀ c : AdjacencyCursor, (c.inOtherHalf s N).length ≤ s.edges.arena.length := by
    intro c
    rw [inOtherHalf]
    split
    · exact hphase c.turn
    · exact Nat.zero_le _
  have hhere := hphase (start node direction label folded)
  have hthere := hother (start node direction label folded)
  rw [ahead_between rfl, List.length_append]
  omega

/-! ### What a walk shows -/

def Left (s : Store) (k : Nat) (c : AdjacencyCursor) : Prop :=
  c.done = true ∨ ∃ N, c.UnderWay s N ∧ (c.ahead s N).length ≤ k

theorem step_of_done (h : c.done = true) : c.step s = (none, c) := by
  rw [step, if_pos h]

theorem advanceWithin_cases (hs : s.Sound order) {k steps : Nat} (h : c.Left s k)
    (hsteps : k < steps) :
    (∃ c', advanceWithin s steps c = (none, c') ∧ c'.done = true) ∨
    ∃ item c' k', advanceWithin s steps c = (some item, c') ∧ k' < k ∧ c'.Left s k' := by
  induction steps generalizing c k with
  | zero => cases hsteps
  | succ steps ih =>
    rw [advanceWithin]
    rcases h with hdone | ⟨N, hway, hlength⟩
    · rw [step_of_done hdone]
      exact .inl ⟨c, rfl, hdone⟩
    · rcases step_cases hs hway with ⟨hstep, _⟩ | ⟨slot, e, c', hstep, hway', hahead⟩
      · rw [hstep]
        exact .inl ⟨_, rfl, rfl⟩
      · rw [hahead, List.length_cons] at hlength
        rw [hstep]
        simp only
        split
        · exact .inr ⟨_, c', _, rfl, hlength, .inr ⟨N, hway', Nat.le_refl _⟩⟩
        · rcases ih (.inr ⟨N, hway', Nat.le_refl _⟩) (by omega) with
            hend | ⟨item, c'', k', hshown, hlt, hleft⟩
          · exact .inl hend
          · exact .inr ⟨item, c'', k', hshown, by omega, hleft⟩

theorem left_around (hs : s.Sound order) {node : Nat} (hN : s.nodes.get? node = some N)
    (direction : Direction) (label : Option String) (folded : Bool) :
    (around s node direction label folded).Left s (2 * s.edges.arena.length) := by
  have hstart : ∀ label, (start node direction label folded).Left s (2 * s.edges.arena.length) :=
    fun label => .inr ⟨N, underWay_between hN rfl rfl,
      length_ahead_start_le hs hN direction label folded⟩
  unfold around
  cases label with
  | none => exact hstart none
  | some label =>
    simp only
    split
    · exact hstart _
    · exact .inl rfl

end AdjacencyCursor

namespace EdgeCursor

def Left (s : Store) (k : Nat) : EdgeCursor → Prop
  | .arena position _ => s.edges.arena.length - position ≤ k
  | .adjacent c => c.Left s k

def AtEnd (s : Store) (c : EdgeCursor) : Prop := c.advance s = (none, c)

theorem nextShown_cases (s : Store) (folded : Bool) (position : Nat) :
    (∃ stop, s.nextShown folded position = (none, stop) ∧
      s.nextShown folded stop = (none, stop)) ∨
    ∃ slot, s.nextShown folded position = (some slot, slot + 1) ∧ position ≤ slot ∧
      slot < s.edges.arena.length := by
  fun_induction s.nextShown folded position with
  | case1 position hnone =>
    refine .inl ⟨position, rfl, ?_⟩
    rw [Store.nextShown]
    split
    · rfl
    · next slot hslot =>
      rw [hnone] at hslot
      cases hslot
  | case2 position slot hslot _ => exact .inr ⟨slot, rfl, Arena.bounds_of_nextLive? hslot⟩
  | case3 position slot hslot _ ih =>
    rcases ih with hend | ⟨found, hfound, hle, hlt⟩
    · exact .inl hend
    · have hbounds := Arena.bounds_of_nextLive? hslot
      exact .inr ⟨found, hfound, by omega, hlt⟩

theorem advance_cases (hs : s.Sound order) {k : Nat} {c : EdgeCursor} (h : c.Left s k)
    (hbound : k < s.walkBound) :
    (∃ c', c.advance s = (none, c') ∧ c'.AtEnd s) ∨
    ∃ item c' k', c.advance s = (some item, c') ∧ k' < k ∧ c'.Left s k' := by
  cases c with
  | arena position folded =>
    rw [advance]
    rcases nextShown_cases s folded position with ⟨stop, hnone, hstays⟩ | ⟨slot, hslot, hle, hlt⟩
    · rw [hnone]
      refine .inl ⟨_, rfl, ?_⟩
      rw [AtEnd, advance, hstays]
      rfl
    · rw [hslot]
      have hleft : s.edges.arena.length - position ≤ k := h
      exact .inr ⟨_, _, s.edges.arena.length - (slot + 1), rfl, by omega, Nat.le_refl _⟩
  | adjacent c =>
    rw [advance, AdjacencyCursor.advance]
    rcases AdjacencyCursor.advanceWithin_cases hs h hbound with
      ⟨c', hend, hdone⟩ | ⟨item, c', k', hshown, hlt, hleft⟩
    · rw [hend]
      refine .inl ⟨_, rfl, ?_⟩
      rw [AtEnd, advance, AdjacencyCursor.advance, Store.walkBound, Nat.mul_succ,
        AdjacencyCursor.advanceWithin, AdjacencyCursor.step_of_done hdone]
    · rw [hshown]
      exact .inr ⟨item, _, k', rfl, hlt, hleft⟩

end EdgeCursor

end PropertyGraph

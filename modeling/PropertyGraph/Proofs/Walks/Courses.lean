import PropertyGraph.Proofs.Walks.Folded

/-!
# The course of a walk around a node

What a cursor has ahead of it can be read off the list of the edges: what is left of the chain that
it is on, and the chains of the labels to come, each of which is what remains of the list when all
other edges are left out. A step takes the first slot of that course, and a folded walk passes over
the slots that it does not show.
-/

namespace PropertyGraph

namespace Linked

variable {links : Nat → Option Link} {prev start : Option Nat} {l l₁ l₂ : List Nat}

theorem of_append (h : Linked links prev start (l₁ ++ l₂)) :
    ∃ prev', Linked links prev' l₂.head? l₂ := by
  induction l₁ generalizing prev start with
  | nil =>
    obtain rfl : start = l₂.head? := h.start_eq_head?
    exact ⟨prev, h⟩
  | cons slot rest ih =>
    obtain ⟨_, _, _, _, hrest⟩ := h
    exact ih hrest

theorem next_eq_head? {slot : Nat} {link : Link} (h : Linked links prev start (slot :: l))
    (hlink : links slot = some link) : link.next = l.head? := by
  obtain ⟨_, link', hlink', _, hrest⟩ := h
  rw [hlink, Option.some.injEq] at hlink'
  rw [hlink']
  exact hrest.start_eq_head?

end Linked

variable {s : Store} {order : List Nat} {N : NodeSlot} {p : Phase} {n : Nat}

namespace Store

/-- The slots on the chains of a node for a phase, label after label. -/
def course (s : Store) (order : List Nat) (p : Phase) (n : Nat) (labels : List Nat) : List Nat :=
  labels.flatMap fun label => order.filter (s.onChain p n label)

theorem map_fst_chainsWithin (hs : s.Sound order) (hN : s.nodes.get? n = some N) (p : Phase)
    (label stop : Nat) : (s.chainsWithin N p label stop).map (·.1) =
      s.course order p n (List.range' label (stop - label)) := by
  induction hrest : stop - label generalizing label with
  | zero =>
    rw [chainsWithin_of_le (Nat.le_of_sub_eq_zero hrest)]
    rfl
  | succ rest ih =>
    rw [chainsWithin_cons (by omega), List.map_append, ih (label + 1) (by omega), List.range'_succ,
      map_fst_chainFrom_head hs.chained hs.nodup hs.mem_iff_get? hN]
    rfl

theorem course_congr {labels labels' : List Nat} (hsorted : labels.Pairwise (· < ·))
    (hsorted' : labels'.Pairwise (· < ·))
    (hmem : ∀ label, order.filter (s.onChain p n label) ≠ [] → (label ∈ labels ↔ label ∈ labels')) :
    s.course order p n labels = s.course order p n labels' := by
  -- With the empty chains left out, both lists are sorted and have the same members.
  have hdrop : ∀ labels : List Nat, s.course order p n labels = s.course order p n
      (labels.filter fun label => order.filter (s.onChain p n label) ≠ []) := by
    intro labels
    induction labels with
    | nil => rfl
    | cons label rest ih =>
      by_cases hempty : order.filter (s.onChain p n label) = []
      · rw [List.filter_cons_of_neg (by simpa using hempty), ← ih, course, List.flatMap_cons, hempty]
        rfl
      · rw [List.filter_cons_of_pos (by simpa using hempty), course, course, List.flatMap_cons,
          List.flatMap_cons]
        exact congrArg _ ih
  rw [hdrop labels, hdrop labels']
  refine congrArg _ (List.Pairwise.eq_of_mem_iff (hsorted.filter _) (hsorted'.filter _) fun label => ?_)
  rw [List.mem_filter, List.mem_filter]
  exact and_congr_left fun hfull => hmem label (of_decide_eq_true hfull)

theorem label_of_chain (hs : s.Sound order) (hN : s.nodes.get? n = some N) {label : Nat}
    (hfull : order.filter (s.onChain p n label) ≠ []) :
    label < (N.heads.get p).size ∧ label ∈ s.labels.labels.slots := by
  constructor
  · by_contra hge
    refine hfull ?_
    have hhead := (hs.chained p n N label hN).start_eq_head?
    rw [NodeSlot.head?, Array.getElem?_eq_none (Nat.le_of_not_lt hge), Option.join_none] at hhead
    exact List.head?_eq_none_iff.mp hhead.symm
  · obtain ⟨i, hi⟩ := List.exists_mem_of_ne_nil _ hfull
    obtain ⟨e, he, _, rfl⟩ := onChain_iff.mp (List.of_mem_filter hi)
    have hlabel := hs.label_of i e.unlinked (Sound.plain?_eq_some he)
    exact hs.labels_sound.valid.toLaid.mem_slots.mpr (Option.isSome_of_eq_some hlabel)

theorem mem_course {labels : List Nat} {i : Nat} : i ∈ s.course order p n labels ↔
    i ∈ order ∧ ∃ e, s.edges.get? i = some e ∧ e.ends.get p = n ∧ e.label ∈ labels := by
  rw [course, List.mem_flatMap]
  constructor
  · rintro ⟨label, hlabel, hmem⟩
    obtain ⟨hi, hon⟩ := List.mem_filter.mp hmem
    obtain ⟨e, he, hend, rfl⟩ := onChain_iff.mp hon
    exact ⟨hi, e, he, hend, hlabel⟩
  · rintro ⟨hi, e, he, hend, hlabel⟩
    exact ⟨e.label, hlabel, List.mem_filter.mpr ⟨hi, onChain_iff.mpr ⟨e, he, hend, rfl⟩⟩⟩

theorem nodup_course {labels : List Nat} (hnodup : order.Nodup) (hlabels : labels.Nodup) :
    (s.course order p n labels).Nodup := by
  refine List.nodup_flatMap.mpr ⟨fun label _ => hnodup.filter _, hlabels.imp ?_⟩
  intro label label' hne i hi hi'
  obtain ⟨e, he, _, hlabel⟩ := onChain_iff.mp (List.of_mem_filter hi)
  obtain ⟨e', he', _, hlabel'⟩ := onChain_iff.mp (List.of_mem_filter hi')
  rw [he, Option.some.injEq] at he'
  exact hne (by rw [← hlabel, ← hlabel', he'])

def shows (s : Store) (direction : Direction) (folded : Bool) (x : Phase × Nat) : Bool :=
  !folded || (s.edges.get? x.2).any (·.isShownFolded x.1 (direction == .both))

end Store

def Direction.phases : Direction → List Phase
  | .outgoing => [.outgoing]
  | .incoming => [.incoming]
  | .both => [.outgoing, .incoming]

namespace AdjacencyCursor

variable {c c' opened : AdjacencyCursor} {here : List Nat}

/-! ### What a step can do -/

/-- Nothing changes of what a walk is about, only the place that it has come to. -/
structure Continues (c c' : AdjacencyCursor) : Prop where
  node : c'.node = c.node
  direction : c'.direction = c.direction
  label : c'.label = c.label
  folded : c'.folded = c.folded

namespace Continues

theorem refl (c : AdjacencyCursor) : c.Continues c := ⟨rfl, rfl, rfl, rfl⟩

theorem trans {c'' : AdjacencyCursor} (h : c.Continues c') (h' : c'.Continues c'') :
    c.Continues c'' :=
  ⟨h'.node.trans h.node, h'.direction.trans h.direction, h'.label.trans h.label,
    h'.folded.trans h.folded⟩

end Continues

theorem exists_of_findHead {heads : Array (Option Nat)} {label stop head next : Nat}
    (h : findHead heads label stop = some (head, next)) :
    ∃ found, next = found + 1 ∧ heads[found]?.join = some head ∧ label ≤ found ∧ found < stop := by
  fun_induction findHead heads label stop with
  | case1 label hlt first hfirst =>
    cases h
    exact ⟨label, rfl, hfirst, Nat.le_refl label, hlt⟩
  | case2 label hlt hnone ih =>
    obtain ⟨found, hnext, hhead, hle, hstop⟩ := ih h
    exact ⟨found, hnext, hhead, Nat.le_of_succ_le hle, hstop⟩
  | case3 label hge => cases h

theorem exists_of_openInPhase (h : c.openInPhase N = some opened) :
    ∃ head found, N.head? c.phase found = some head ∧
      (∀ label, c.label = some label → label ≤ c.nextLabel → found = label) ∧
      opened = { c with next := some head, nextLabel := found + 1 } := by
  obtain ⟨⟨head, next⟩, hfind, rfl⟩ := Option.map_eq_some_iff.mp h
  obtain ⟨found, rfl, hhead, hle, hlt⟩ := exists_of_findHead hfind
  refine ⟨head, found, hhead, fun label hlabel hfirst => ?_, rfl⟩
  rw [hlabel] at hlt
  simp only at hlt
  omega

theorem exists_of_openChain (h : c.openChain s = some opened) :
    ∃ N p head found, s.nodes.get? c.node = some N ∧ N.head? p found = some head ∧
      (∀ label, c.label = some label → label ≤ c.nextLabel → found = label) ∧
      opened = { c with phase := p, next := some head, nextLabel := found + 1 } := by
  obtain ⟨N, hN, hopen⟩ := Option.bind_eq_some_iff.mp h
  cases hhere : c.openInPhase N with
  | some c' =>
    rw [hhere] at hopen
    cases hopen
    obtain ⟨head, found, hhead, hlabel, rfl⟩ := exists_of_openInPhase hhere
    exact ⟨N, c.phase, head, found, hN, hhead, hlabel, rfl⟩
  | none =>
    rw [hhere] at hopen
    obtain ⟨_, _, hturned⟩ := Option.bind_eq_some_iff.mp hopen
    obtain ⟨head, found, hhead, hlabel, rfl⟩ := exists_of_openInPhase hturned
    refine ⟨N, .incoming, head, found, hN, hhead, fun label hasked _ => ?_, rfl⟩
    refine hlabel label hasked ?_
    change label ≤ c.label.getD 0
    rw [hasked, Option.getD_some]

theorem exists_of_step {slot : Nat} {e : EdgeSlot} (h : c.step s = (some (slot, e), c')) :
    ∃ opened : AdjacencyCursor, (opened = c ∨ c.next = none ∧ c.openChain s = some opened) ∧
      opened.next = some slot ∧ s.edges.get? slot = some e ∧
      c' = { opened with next := e.next? opened.phase } := by
  rw [step] at h
  split at h
  · cases h
  · generalize hopened : (if c.next.isSome then some c else c.openChain s) = opened at h
    cases opened with
    | none => cases h
    | some opened =>
      simp only at h
      split at h
      · cases h
      · next found hfound =>
        cases h
        obtain ⟨next, hnext, hslot⟩ := Option.bind_eq_some_iff.mp hfound
        obtain ⟨x, hx, heq⟩ := Option.map_eq_some_iff.mp hslot
        cases heq
        refine ⟨opened, ?_, hnext, hx, rfl⟩
        split at hopened
        · exact .inl (Option.some.inj hopened).symm
        · next hover => exact .inr ⟨Option.not_isSome_iff_eq_none.mp hover, hopened⟩

theorem continues_of_step {slot : Nat} {e : EdgeSlot} (h : c.step s = (some (slot, e), c')) :
    c.Continues c' := by
  obtain ⟨opened, hopened, _, _, rfl⟩ := exists_of_step h
  rcases hopened with rfl | ⟨_, hopen⟩
  · exact ⟨rfl, rfl, rfl, rfl⟩
  · obtain ⟨_, _, _, _, _, _, _, rfl⟩ := exists_of_openChain hopen
    exact ⟨rfl, rfl, rfl, rfl⟩

/-! ### What is ahead, by slots -/

def labels (s : Store) (c : AdjacencyCursor) : List Nat :=
  match c.label with
  | some label => [label]
  | none => s.labels.labels.slots

/-- The slots on the chains that a walk has yet to begin, with their phases. -/
def course (s : Store) (order : List Nat) (c : AdjacencyCursor) : List (Phase × Nat) :=
  (s.course order c.phase c.node ((c.labels s).filter (c.nextLabel ≤ ·))).map (c.phase, ·) ++
    if c.phase = .outgoing ∧ c.direction = .both then
      (s.course order .incoming c.node (c.labels s)).map (.incoming, ·)
    else []

/-- The slots that a walk comes to, of which the given ones are left of the chain that it is on. -/
def toCome (s : Store) (order : List Nat) (c : AdjacencyCursor) (here : List Nat) :
    List (Phase × Nat) :=
  here.map (c.phase, ·) ++ c.course s order

theorem pairwise_lt_labels (hs : s.Sound order) (c : AdjacencyCursor) :
    (c.labels s).Pairwise (· < ·) := by
  rw [labels]
  split
  · exact List.pairwise_singleton _ _
  · exact hs.labels_sound.valid.toLaid.pairwise_lt_slots

theorem filter_labels (s : Store) (c : AdjacencyCursor) :
    (c.labels s).filter (c.label.getD 0 ≤ ·) = c.labels s := by
  rw [List.filter_eq_self, labels]
  intro label hmem
  cases hasked : c.label with
  | none => exact decide_eq_true (Nat.zero_le label)
  | some asked =>
    rw [hasked] at hmem
    exact decide_eq_true (Nat.le_of_eq (List.mem_singleton.mp hmem).symm)

/-- A walk is under way along a chain of its node, of which the given slots are left. -/
structure Along (s : Store) (order : List Nat) (c : AdjacencyCursor) (here : List Nat) : Prop where
  node : (s.nodes.get? c.node).isSome
  label_le : ∀ label, c.label = some label → label ≤ c.nextLabel
  on_chain : ∃ before label, order.filter (s.onChain c.phase c.node label) = before ++ here
  next_eq : c.next = here.head?
  unfinished : c.done = false

theorem map_inPhase (hs : s.Sound order) (hN : s.nodes.get? c.node = some N)
    (hlabel : ∀ label, c.label = some label → label ≤ c.nextLabel) :
    (c.inPhase s N).map (fun x => (x.1, x.2.1)) =
      (s.course order c.phase c.node ((c.labels s).filter (c.nextLabel ≤ ·))).map (c.phase, ·) := by
  have hcourse : s.course order c.phase c.node
      (List.range' c.nextLabel (c.stop N c.phase - c.nextLabel)) =
        s.course order c.phase c.node ((c.labels s).filter (c.nextLabel ≤ ·)) := by
    refine Store.course_congr List.pairwise_lt_range' ((c.pairwise_lt_labels hs).filter _)
      fun label hfull => ?_
    obtain ⟨hsize, hregistered⟩ := Store.label_of_chain hs hN hfull
    rw [List.mem_range'_1, List.mem_filter, decide_eq_true_iff, labels, stop]
    cases hasked : c.label with
    | none =>
      simp only [hregistered, true_and]
      omega
    | some asked =>
      have hle := hlabel asked hasked
      simp only [List.mem_singleton]
      omega
  calc (c.inPhase s N).map (fun x => (x.1, x.2.1))
      = ((s.chainsWithin N c.phase c.nextLabel (c.stop N c.phase)).map (·.1)).map (c.phase, ·) := by
        rw [inPhase, List.map_map, List.map_map]
        rfl
    _ = _ := by rw [Store.map_fst_chainsWithin hs hN, hcourse]

namespace Along

theorem exists_linked (h : c.Along s order here) (hs : s.Sound order) :
    ∃ prev, Linked (s.link? c.phase) prev c.next here ∧ here.length ≤ s.edges.arena.length := by
  obtain ⟨N, hN⟩ := Option.isSome_iff_exists.mp h.node
  obtain ⟨before, label, hchain⟩ := h.on_chain
  have hwhole := hs.chained c.phase c.node N label hN
  have hlength : (before ++ here).length ≤ s.edges.arena.length := by
    rw [← hchain]
    exact (List.length_filter_le _ _).trans (Store.length_le hs.nodup hs.mem_iff_get?)
  rw [hchain] at hwhole
  obtain ⟨prev, hrest⟩ := hwhole.of_append
  rw [List.length_append] at hlength
  exact ⟨prev, h.next_eq ▸ hrest, Nat.le_of_add_left_le hlength⟩

theorem underWay (h : c.Along s order here) (hs : s.Sound order)
    (hN : s.nodes.get? c.node = some N) : c.UnderWay s N := by
  obtain ⟨prev, hlinked, hlength⟩ := h.exists_linked hs
  exact ⟨hN, ⟨prev, here, hlinked, hlength⟩, h.unfinished⟩

theorem map_ahead (h : c.Along s order here) (hs : s.Sound order)
    (hN : s.nodes.get? c.node = some N) :
    (c.ahead s N).map (fun x => (x.1, x.2.1)) = c.toCome s order here := by
  have hother : (c.inOtherHalf s N).map (fun x => (x.1, x.2.1)) =
      if c.phase = .outgoing ∧ c.direction = .both then
        (s.course order .incoming c.node (c.labels s)).map (.incoming, ·)
      else [] := by
    rw [inOtherHalf]
    split
    · rw [map_inPhase (c := c.turn) hs hN fun label hlabel => ?_]
      · exact congrArg (fun labels => (s.course order .incoming c.node labels).map _)
          (c.turn.filter_labels s)
      · change label ≤ c.label.getD 0
        rw [show c.label = some label from hlabel, Option.getD_some]
    · rfl
  obtain ⟨prev, hlinked, hlength⟩ := h.exists_linked hs
  have hhere := Store.map_fst_chainFrom hlinked hlength
  have hchain : ((s.chainFrom c.phase s.edges.arena.length c.next).map (c.phase, ·)).map
      (fun x => (x.1, x.2.1)) = here.map (c.phase, ·) := by
    conv_rhs => rw [← hhere]
    rw [List.map_map, List.map_map]
    rfl
  rw [ahead, List.map_append, List.map_append, map_inPhase hs hN h.label_le, hother, hchain]
  rfl

theorem of_openChain (h : c.Along s order here) (hs : s.Sound order)
    (hopen : c.openChain s = some opened) : ∃ here', opened.Along s order here' := by
  obtain ⟨N, p, head, found, hN, hhead, hlabel, rfl⟩ := exists_of_openChain hopen
  refine ⟨order.filter (s.onChain p c.node found), h.node, fun label hasked => ?_,
    ⟨[], found, rfl⟩, ?_, h.unfinished⟩
  · change label ≤ found + 1
    rw [hlabel label hasked (h.label_le label hasked)]
    exact Nat.le_succ label
  · rw [← (hs.chained p c.node N found hN).start_eq_head?, hhead]

theorem of_step (h : c.Along s order here) (hs : s.Sound order) {slot : Nat} {e : EdgeSlot}
    (hstep : c.step s = (some (slot, e), c')) : ∃ here', c'.Along s order here' := by
  obtain ⟨opened, hopened, hnext, he, rfl⟩ := exists_of_step hstep
  obtain ⟨here₁, hway⟩ : ∃ here₁, opened.Along s order here₁ := by
    rcases hopened with rfl | ⟨_, hopen⟩
    · exact ⟨here, h⟩
    · exact h.of_openChain hs hopen
  obtain ⟨prev, hlinked, _⟩ := hway.exists_linked hs
  have hnext' := hway.next_eq
  rw [hnext] at hlinked hnext'
  obtain ⟨rest, rfl⟩ := List.head?_eq_some_iff.mp hnext'.symm
  obtain ⟨before, label, hchain⟩ := hway.on_chain
  refine ⟨rest, hway.node, hway.label_le, ⟨before ++ [slot], label, ?_⟩, ?_, hway.unfinished⟩
  · rw [hchain, List.append_assoc, List.singleton_append]
  · exact hlinked.next_eq_head? (by rw [Store.link?, he, Option.map_some])

theorem step_cases (h : c.Along s order here) (hs : s.Sound order) :
    (c.step s = (none, { c with done := true }) ∧ c.toCome s order here = []) ∨
    ∃ slot e c' here', c.step s = (some (slot, e), c') ∧ s.edges.get? slot = some e ∧
      c'.Along s order here' ∧ c.Continues c' ∧
      c.toCome s order here = (c'.phase, slot) :: c'.toCome s order here' := by
  obtain ⟨N, hN⟩ := Option.isSome_iff_exists.mp h.node
  rcases AdjacencyCursor.step_cases hs (h.underWay hs hN) with
    ⟨hstep, hnone⟩ | ⟨slot, e, c', hstep, _, hahead⟩
  · refine .inl ⟨hstep, ?_⟩
    rw [← h.map_ahead hs hN, hnone, List.map_nil]
  · have hsame := continues_of_step hstep
    obtain ⟨_, _, _, he, _⟩ := exists_of_step hstep
    obtain ⟨here', h'⟩ := h.of_step hs hstep
    refine .inr ⟨slot, e, c', here', hstep, he, h', hsame, ?_⟩
    rw [← h.map_ahead hs hN, hahead, List.map_cons, h'.map_ahead hs (hsame.node ▸ hN)]

end Along

/-! ### What is shown of it -/

/-- The slots that a walk shows, of those that it comes to. -/
def shown (s : Store) (order : List Nat) (c : AdjacencyCursor) (here : List Nat) :
    List (Phase × Nat) :=
  (c.toCome s order here).filter (s.shows c.direction c.folded)

theorem length_shown_le (s : Store) (order : List Nat) (c : AdjacencyCursor) (here : List Nat) :
    (c.shown s order here).length ≤ (c.toCome s order here).length := List.length_filter_le _ _

theorem Along.advanceWithin_cases (h : c.Along s order here) (hs : s.Sound order) {steps : Nat}
    (hsteps : (c.toCome s order here).length < steps) :
    (∃ c', advanceWithin s steps c = (none, c') ∧ c'.done = true ∧ c.shown s order here = []) ∨
    ∃ slot c' here', advanceWithin s steps c = (some (slot, c'.phase), c') ∧
      (s.edges.get? slot).isSome ∧ c'.Along s order here' ∧ c.Continues c' ∧
      (c'.phase, slot) :: c'.toCome s order here' <:+ c.toCome s order here ∧
      c.shown s order here = (c'.phase, slot) :: c'.shown s order here' := by
  -- Each step takes one slot off the course, and the bound on the steps is longer than the course.
  induction steps generalizing c here with
  | zero => cases hsteps
  | succ steps ih =>
    rw [advanceWithin]
    rcases h.step_cases hs with ⟨hstep, hnone⟩ | ⟨slot, e, c', here', hstep, he, h', hsame, hfirst⟩
    · rw [hstep]
      exact .inl ⟨_, rfl, rfl, by rw [shown, hnone, List.filter_nil]⟩
    · have hshows : s.shows c.direction c.folded (c'.phase, slot) = c'.isShown e := by
        rw [Store.shows, he, Option.any_some, isShown, hsame.folded, hsame.direction]
      have hshown : c.shown s order here =
          if c'.isShown e then (c'.phase, slot) :: c'.shown s order here'
          else c'.shown s order here' := by
        rw [shown, hfirst, List.filter_cons, hshows, shown, hsame.folded, hsame.direction]
      rw [hfirst, List.length_cons] at hsteps
      rw [hstep]
      simp only
      split
      · next hvisible =>
        rw [if_pos hvisible] at hshown
        exact .inr ⟨slot, c', here', rfl, Option.isSome_of_eq_some he, h', hsame,
          hfirst ▸ List.suffix_rfl, hshown⟩
      · next hhidden =>
        rw [if_neg hhidden] at hshown
        rw [hshown, hfirst]
        rcases ih h' (Nat.lt_of_succ_lt_succ hsteps) with
          hend | ⟨slot', c'', here'', hadvance, hlive, h'', hsame', hsuffix, hrest⟩
        · exact .inl hend
        · exact .inr ⟨slot', c'', here'', hadvance, hlive, h'', hsame.trans hsame',
            hsuffix.trans (List.suffix_cons _ _), hrest⟩

theorem along_start (hN : s.nodes.get? n = some N) (direction : Direction) (label : Option Nat)
    (folded : Bool) : (start n direction label folded).Along s order [] where
  node := Option.isSome_of_eq_some hN
  label_le := by
    rintro asked rfl
    exact Nat.le_refl asked
  on_chain := ⟨order.filter (s.onChain direction.firstPhase n 0), 0, (List.append_nil _).symm⟩
  next_eq := rfl
  unfinished := rfl

theorem toCome_start (s : Store) (order : List Nat) (n : Nat) (direction : Direction)
    (label : Option Nat) (folded : Bool) :
    (start n direction label folded).toCome s order [] = direction.phases.flatMap fun p =>
      (s.course order p n ((start n direction label folded).labels s)).map (p, ·) := by
  have hall := (start n direction label folded).filter_labels s
  rw [toCome, course]
  change [] ++ ((s.course order direction.firstPhase n
    (((start n direction label folded).labels s).filter (label.getD 0 ≤ ·))).map _ ++ _) = _
  rw [show ((start n direction label folded).labels s).filter (label.getD 0 ≤ ·) = _ from hall]
  cases direction with
  | outgoing => rfl
  | incoming => rfl
  | both =>
    rw [Direction.phases, List.flatMap_cons, List.flatMap_singleton]
    rfl

theorem nodup_toCome_start (hs : s.Sound order) (n : Nat) (direction : Direction)
    (label : Option Nat) (folded : Bool) :
    ((start n direction label folded).toCome s order []).Nodup := by
  have hhalf : ∀ p : Phase, ((s.course order p n
      ((start n direction label folded).labels s)).map (p, ·)).Nodup := fun p =>
    (Store.nodup_course hs.nodup ((pairwise_lt_labels hs _).imp Nat.ne_of_lt)).map
      (Prod.mk_right_injective p)
  rw [toCome_start, List.nodup_flatMap]
  refine ⟨fun p _ => hhalf p, ?_⟩
  have hphases : direction.phases.Nodup := by cases direction <;> decide
  refine hphases.imp fun {p q} hne x hx hx' => ?_
  obtain ⟨i, _, rfl⟩ := List.mem_map.mp hx
  obtain ⟨j, _, heq⟩ := List.mem_map.mp hx'
  exact hne (congrArg Prod.fst heq).symm

theorem length_toCome_start_le (hs : s.Sound order) (hN : s.nodes.get? n = some N)
    (direction : Direction) (label : Option Nat) (folded : Bool) :
    ((start n direction label folded).toCome s order []).length ≤ 2 * s.edges.arena.length := by
  rw [← (along_start hN direction label folded).map_ahead hs hN, List.length_map]
  exact length_ahead_start_le hs hN direction label folded

end AdjacencyCursor

namespace EdgeIterator

variable {it : EdgeIterator} {c : AdjacencyCursor} {here : List Nat} {s : Session}

theorem seekWithin_cases_of_adjacent {shows : Nat → Bool} {steps : Nat} (hs : s.store.Sound order)
    (hshows : ∀ slot, it.shows? s slot = some (shows slot)) (hcursor : it.cursor = .adjacent c)
    (h : c.Along s.store order here)
    (hbound : (c.toCome s.store order here).length < s.store.walkBound)
    (hsteps : (c.shown s.store order here).length < steps) :
    (∃ c', seekWithin s steps it = (none, { it with cursor := .adjacent c' }) ∧ c'.done = true ∧
      (c.shown s.store order here).filter (shows ·.2) = []) ∨
    ∃ slot edge c' here', s.store.edge? slot = some edge ∧
      seekWithin s steps it = (some edge, { it with
        cursor := .adjacent c', current := some edge, phase := some c'.phase }) ∧
      c'.Along s.store order here' ∧ c.Continues c' ∧
      (c'.phase, slot) :: c'.toCome s.store order here' <:+ c.toCome s.store order here ∧
      (c.shown s.store order here).filter (shows ·.2) =
        (c'.phase, slot) :: (c'.shown s.store order here').filter (shows ·.2) := by
  induction steps generalizing it c here with
  | zero => cases hsteps
  | succ steps ih =>
    rw [seekWithin, hcursor, EdgeCursor.advance, AdjacencyCursor.advance]
    rcases h.advanceWithin_cases hs hbound with
      ⟨c', hadvance, hdone, hnone⟩ | ⟨slot, c', here', hadvance, hlive, h', hsame, hsuffix, hshown⟩
    · rw [hadvance, hnone]
      exact .inl ⟨c', rfl, hdone, rfl⟩
    · obtain ⟨e, he⟩ := Option.isSome_iff_exists.mp hlive
      have hedge : s.store.edge? slot = some e.edge := Store.edge?_eq_some he
      rw [hshown, List.length_cons] at hsteps
      rw [hadvance, hshown]
      simp only [hedge, hshows]
      cases hseen : shows slot with
      | true =>
        rw [List.filter_cons_of_pos (p := fun x : Phase × Nat => shows x.2) hseen]
        exact .inr ⟨slot, e.edge, c', here', hedge, rfl, h', hsame, hsuffix, rfl⟩
      | false =>
        have hlength := hsuffix.length_le
        rw [List.length_cons] at hlength
        rw [List.filter_cons_of_neg (p := fun x : Phase × Nat => shows x.2)
          (Bool.not_eq_true _ ▸ hseen)]
        have hmoved : ∀ i, { it with cursor := .adjacent c' }.shows? s i = some (shows i) := hshows
        rcases ih hmoved rfl h' (by omega) (by omega) with
          ⟨c'', hseek, hdone, hnone⟩ |
          ⟨found, edge, c'', here'', hfound, hseek, h'', hsame', hsuffix', hcons⟩
        · exact .inl ⟨c'', hseek, hdone, hnone⟩
        · have hpassed := (List.suffix_cons _ _).trans hsuffix
          exact .inr ⟨found, edge, c'', here'', hfound, hseek, h'', hsame.trans hsame',
            hsuffix'.trans hpassed, hcons⟩

theorem seek_cases_of_adjacent (hs : s.store.Sound order) (hfilter : it.filter = none)
    (hcursor : it.cursor = .adjacent c) (h : c.Along s.store order here)
    (hbound : (c.toCome s.store order here).length < s.store.walkBound) :
    (∃ c', it.seek s = (none, { it with cursor := .adjacent c' }) ∧ c'.done = true ∧
      c.shown s.store order here = []) ∨
    ∃ slot edge c' here', s.store.edge? slot = some edge ∧
      it.seek s = (some edge, { it with
        cursor := .adjacent c', current := some edge, phase := some c'.phase }) ∧
      c'.Along s.store order here' ∧ c.Continues c' ∧
      (c'.phase, slot) :: c'.toCome s.store order here' <:+ c.toCome s.store order here ∧
      c.shown s.store order here = (c'.phase, slot) :: c'.shown s.store order here' := by
  have hcases := seekWithin_cases_of_adjacent hs (shows?_of_none hfilter) hcursor h hbound
    (Nat.lt_of_le_of_lt (c.length_shown_le s.store order here) hbound)
  simp only [List.filter_true] at hcases
  exact hcases

theorem seek_of_done (hcursor : it.cursor = .adjacent c) (hdone : c.done = true) :
    it.seek s = (none, it) := by
  refine seek_of_atEnd ?_
  rw [hcursor, EdgeCursor.AtEnd, EdgeCursor.advance, AdjacencyCursor.advance, Store.walkBound,
    Nat.mul_succ, AdjacencyCursor.advanceWithin, AdjacencyCursor.step_of_done hdone]

def itemAt (s : Session) (x : Phase × Nat) : Option Item :=
  (s.store.edge? x.2).map (.edge · (some x.1))

theorem itemAt_of_edge? {slot : Nat} {edge : Edge} (hedge : s.store.edge? slot = some edge)
    (p : Phase) : itemAt s (p, slot) = some (.edge edge (some p)) := by
  rw [itemAt, hedge, Option.map_some]

/-- An iterator around a node lists the edges that its walk shows and that it sees. -/
theorem lists_of_adjacent {space : GraphSpace} {shows : Nat → Bool}
    (hsession : space.session? it.guard.graph = some s) (hs : s.store.Sound order)
    (hshows : ∀ slot, it.shows? s slot = some (shows slot)) (hcursor : it.cursor = .adjacent c)
    (h : c.Along s.store order here)
    (hbound : (c.toCome s.store order here).length < s.store.walkBound) :
    (Iterator.edges it).Lists space
      (((c.shown s.store order here).filter (shows ·.2)).filterMap (itemAt s)) := by
  induction hshown : (c.shown s.store order here).filter (shows ·.2) generalizing it c here with
  | nil =>
    have hcases := seekWithin_cases_of_adjacent hs hshows hcursor h hbound
      (Nat.lt_of_le_of_lt (c.length_shown_le s.store order here) hbound)
    rcases hcases with ⟨c', hseek, hdone, _⟩ | ⟨_, _, _, _, _, _, _, _, _, hcons⟩
    · have hover := next_edges_of_seek it hsession
      rw [seek, hseek, Option.map_none] at hover
      have hstill := next_edges_of_seek { it with cursor := .adjacent c' } hsession
      rw [seek_of_done rfl hdone, Option.map_none] at hstill
      exact Iterator.lists_nil hover hstill
    · rw [hshown] at hcons
      cases hcons
  | cons first rest ih =>
    have hcases := seekWithin_cases_of_adjacent hs hshows hcursor h hbound
      (Nat.lt_of_le_of_lt (c.length_shown_le s.store order here) hbound)
    rcases hcases with
      ⟨_, _, _, hnil⟩ | ⟨slot, edge, c', here', hedge, hseek, h', hsame, hsuffix, hcons⟩
    · rw [hshown] at hnil
      cases hnil
    · rw [hshown, List.cons.injEq] at hcons
      obtain ⟨rfl, hrest⟩ := hcons
      have hnext := next_edges_of_seek it hsession
      rw [seek, hseek, Option.map_some] at hnext
      have hlength := hsuffix.length_le
      rw [List.length_cons] at hlength
      rw [List.filterMap_cons_some (itemAt_of_edge? hedge c'.phase)]
      exact Iterator.Lists.cons hnext (ih hsession hshows rfl h' (by omega) hrest.symm)

end EdgeIterator

theorem Session.collect_eq {s : Session} {c : AdjacencyCursor} {here : List Nat} {steps : Nat}
    (hs : s.store.Sound order) (h : c.Along s.store order here)
    (hbound : (c.toCome s.store order here).length < s.store.walkBound)
    (hsteps : (c.shown s.store order here).length < steps) :
    s.collect steps c = (c.shown s.store order here).filterMap fun x =>
      (s.store.edge? x.2).map (x.1, ·) := by
  induction steps generalizing c here with
  | zero => cases hsteps
  | succ steps ih =>
    rw [collect, AdjacencyCursor.advance]
    rcases h.advanceWithin_cases hs hbound with
      ⟨c', hadvance, _, hnone⟩ | ⟨slot, c', here', hadvance, hlive, h', hsame, hsuffix, hshown⟩
    · rw [hadvance, hnone]
      rfl
    · obtain ⟨e, he⟩ := Option.isSome_iff_exists.mp hlive
      have hedge : s.store.edge? slot = some e.edge := Store.edge?_eq_some he
      have hlength := hsuffix.length_le
      rw [List.length_cons] at hlength
      rw [hshown, List.length_cons] at hsteps
      rw [hadvance, hshown]
      simp only [hedge]
      rw [List.filterMap_cons_some (b := (c'.phase, e.edge)) (by rw [hedge, Option.map_some]),
        ih h' (by omega) (by omega)]

end PropertyGraph

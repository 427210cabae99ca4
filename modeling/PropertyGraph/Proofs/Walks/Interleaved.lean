import PropertyGraph.Proofs.Freeze.Iterators
import PropertyGraph.Proofs.Graph.Writing
import PropertyGraph.Proofs.Session.Accepted
import PropertyGraph.Proofs.Session.LabelsStay
import PropertyGraph.Proofs.Walks.Around

/-!
# Walks while the graph changes

A walk around a node goes by numbers: the slot of its node, and the slot of the edge that comes next,
which it has noted. Where elements are removed and others stored between two steps, either slot may
have passed to another element, and the walk goes on from there, perhaps around another node. It never
comes to an edge that is not stored, and as long as the slots that it goes by are kept it stays with
its node and its label.
-/

namespace PropertyGraph

open GraphSpace Session

/-- The edge has the node at the end that belongs to the phase, and the label, if one is asked for. -/
structure Edge.Meets (edge : Edge) (p : Phase) (node : Node) (label : Option String) : Prop where
  node_eq : edge.node p.role = node
  label_eq : ∀ asked, label = some asked → edge.label = asked

theorem Store.Sound.onChain_of_next? {s : Store} {order : List Nat} {slot next : Nat} {e : EdgeSlot}
    {p : Phase} (h : s.Sound order) (he : s.edges.get? slot = some e)
    (hnext : e.next? p = some next) : s.onChain p (e.ends.get p) e.label next = true := by
  obtain ⟨N, hN, _⟩ := Option.map_eq_some_iff.mp (h.node_of_end slot _ p (Sound.plain?_eq_some he))
  have hmem : slot ∈ order.filter (s.onChain p (e.ends.get p) e.label) :=
    List.mem_filter.mpr ⟨(h.mem_iff_get? slot).mpr (Option.isSome_of_eq_some he),
      onChain_iff.mpr ⟨e, he, rfl, rfl⟩⟩
  -- The chain is the slots of the order that are on it, and goes from each to the one after it.
  obtain ⟨before, rest, hchain⟩ := List.append_of_mem hmem
  have hlinked := h.chained p (e.ends.get p) N e.label hN
  rw [hchain] at hlinked
  obtain ⟨_, hrest⟩ := hlinked.of_append
  have hhead : e.next? p = rest.head? :=
    hrest.next_eq_head? (by rw [link?, he, Option.map_some])
  rw [hnext] at hhead
  have hlater : next ∈ order.filter (s.onChain p (e.ends.get p) e.label) := by
    rw [hchain]
    exact List.mem_append_right _ (List.mem_cons_of_mem _ (List.mem_of_mem_head? hhead.symm))
  exact List.of_mem_filter hlater

theorem Session.Consistent.meets_of_onChain {s : Session} {order : List Nat} {slot n id : Nat}
    {p : Phase} {edge : Edge} {node : Node} {label : Option String} (hs : s.Consistent order)
    (hedge : s.store.edge? slot = some edge) (hnode : s.store.node? n = some node)
    (hchain : s.store.onChain p n id slot = true)
    (hlabel : ∀ asked, label = some asked → s.store.labels.labels.get? id = some asked) :
    edge.Meets p node label := by
  obtain ⟨N, hN, rfl⟩ := Option.map_eq_some_iff.mp hnode
  rw [hs.onChain_iff hN hedge, Store.chainHas, decide_eq_true_iff] at hchain
  refine ⟨hchain.1, fun asked hasked => ?_⟩
  have hid := (hs.sound.labels_sound.ids_iff edge.label id).mp hchain.2
  rw [hlabel asked hasked, Option.some.injEq] at hid
  exact hid.symm

namespace AdjacencyCursor

variable {c c' : AdjacencyCursor} {s s' : Session} {order : List Nat} {node : Node}
  {label : Option String}

/-- A walk that is not over keeps to a node and a label: the edge that it has noted is at the node and
has the label, and the id along whose chains it goes is that of the label. -/
structure OnCourse (c : AdjacencyCursor) (s : Store) (node : Node) (label : Option String) : Prop where
  noted : c.done = false → ∀ slot edge, c.next = some slot → s.edge? slot = some edge →
    edge.Meets c.phase node label
  asked : c.done = false → ∀ asked, label = some asked →
    ∃ id, c.label = some id ∧ id ≤ c.nextLabel ∧ s.labels.labels.get? id = some asked

/-- The slots that a walk goes by have not passed to others between two moments: that of its node not
to another node, and that which it has noted not to another edge. -/
structure SlotsKept (c : AdjacencyCursor) (node : Node) (s s' : Store) : Prop where
  node : ∀ other, s'.node? c.node = some other → other = node
  edge : ∀ slot edge, c.next = some slot → s'.edge? slot = some edge → s.edge? slot = some edge

theorem done_of_step {s : Store} (h : c.step s = (none, c')) : c'.done = true := by
  rw [step] at h
  split at h
  · next hdone =>
    cases h
    exact hdone
  · generalize (if c.next.isSome then some c else c.openChain s) = opened at h
    cases opened with
    | none =>
      cases h
      rfl
    | some opened =>
      simp only at h
      split at h
      · cases h
        rfl
      · cases h

namespace OnCourse

theorem of_done (hdone : c.done = true) : c.OnCourse s.store node label where
  noted := fun hgoing => absurd hdone (Bool.eq_false_iff.mp hgoing)
  asked := fun hgoing => absurd hdone (Bool.eq_false_iff.mp hgoing)

theorem of_next_eq_none (hnone : c.next = none) (hasked : c.done = false → ∀ asked,
    label = some asked → ∃ id, c.label = some id ∧ id ≤ c.nextLabel ∧
      s.store.labels.labels.get? id = some asked) : c.OnCourse s.store node label where
  noted := by
    intro _ slot edge hnext
    rw [hnone] at hnext
    cases hnext
  asked := hasked

theorem around (hs : s.Consistent order) (n : Nat) (direction : Direction) (label : Option String)
    (folded : Bool) : (AdjacencyCursor.around s.store n direction label folded).OnCourse s.store node
      label := by
  unfold AdjacencyCursor.around
  cases label with
  | none =>
    refine of_next_eq_none rfl fun _ asked hasked => ?_
    cases hasked
  | some asked =>
    simp only
    cases hid : s.store.labels.idOf? asked with
    | none => exact of_done rfl
    | some id =>
      refine of_next_eq_none rfl fun _ other hother => ⟨id, rfl, Nat.le_refl id, ?_⟩
      cases hother
      exact (hs.sound.labels_sound.ids_iff asked id).mp hid

theorem of_slotsKept (h : c.OnCourse s.store node label) (hslotsKept : c.SlotsKept node s.store s'.store)
    (hlabels : s.store.labels.StaysIn s'.store.labels) : c.OnCourse s'.store node label where
  noted := fun hgoing slot edge hnext hedge =>
    h.noted hgoing slot edge hnext (hslotsKept.edge slot edge hnext hedge)
  asked := by
    intro hgoing asked hasked
    obtain ⟨id, hid, hle, hget⟩ := h.asked hgoing asked hasked
    exact ⟨id, hid, hle, hlabels id asked hget⟩

theorem of_step (h : c.OnCourse s.store node label) (hs : s.Consistent order)
    (hnode : ∀ other, s.store.node? c.node = some other → other = node) {slot : Nat} {e : EdgeSlot}
    (hstep : c.step s.store = (some (slot, e), c')) :
    e.edge.Meets c'.phase node label ∧ c'.OnCourse s.store node label := by
  have hgoing : c.done = false := by
    rw [← Bool.not_eq_true]
    intro hdone
    rw [step_of_done hdone] at hstep
    cases hstep
  obtain ⟨opened, hopened, hnext, he, rfl⟩ := exists_of_step hstep
  have hedge : s.store.edge? slot = some e.edge := Store.edge?_eq_some he
  have hplain := Store.Sound.plain?_eq_some he
  obtain ⟨hmeets, hasked⟩ : e.edge.Meets opened.phase node label ∧
      ∀ asked, label = some asked → ∃ id, opened.label = some id ∧ id ≤ opened.nextLabel ∧
        s.store.labels.labels.get? id = some asked := by
    -- The edge is the one that was noted, or the head of a chain that is opened only now.
    rcases hopened with rfl | ⟨_, hopen⟩
    · exact ⟨h.noted hgoing slot e.edge hnext hedge, h.asked hgoing⟩
    · obtain ⟨N, p, head, found, hN, hhead, hfound, rfl⟩ := exists_of_openChain hopen
      obtain rfl : head = slot := Option.some.inj hnext
      have hmem : head ∈ order.filter (s.store.onChain p c.node found) := by
        have hfirst := (hs.sound.chained p c.node N found hN).start_eq_head?
        rw [hhead] at hfirst
        exact List.mem_of_mem_head? hfirst.symm
      have hhere : s.store.node? c.node = some N.node := Store.node?_eq_some hN
      rw [hnode N.node hhere] at hhere
      constructor
      · refine hs.meets_of_onChain hedge hhere (List.of_mem_filter hmem) fun asked hasked => ?_
        obtain ⟨id, hid, hle, hget⟩ := h.asked hgoing asked hasked
        rwa [hfound id hid hle]
      · intro asked hasked
        obtain ⟨id, hid, hle, hget⟩ := h.asked hgoing asked hasked
        refine ⟨id, hid, ?_, hget⟩
        change id ≤ found + 1
        rw [hfound id hid hle]
        exact Nat.le_succ id
  -- What is noted now follows the edge on its chain, which is of the node and the label of the edge.
  refine ⟨hmeets, ⟨fun _ next edge hlater hfar => ?_, fun _ => hasked⟩⟩
  have hend := hs.sound.node_of_end slot e.unlinked opened.phase hplain
  rw [show e.unlinked.edge.node opened.phase.role = node from hmeets.node_eq] at hend
  have hchain := hs.sound.onChain_of_next? (p := opened.phase) he hlater
  refine hs.meets_of_onChain hfar hend hchain fun asked hasked => ?_
  rw [← hmeets.label_eq asked hasked]
  exact hs.sound.label_of slot e.unlinked hplain

theorem of_advanceWithin (h : c.OnCourse s.store node label) (hs : s.Consistent order)
    (hnode : ∀ other, s.store.node? c.node = some other → other = node) {steps : Nat}
    {item : Option (Nat × Phase)} (hadvance : c.advanceWithin s.store steps = (item, c')) :
    c'.OnCourse s.store node label ∧ ∀ slot p, item = some (slot, p) →
      ∃ edge, s.store.edge? slot = some edge ∧ edge.Meets p node label := by
  induction steps generalizing c with
  | zero =>
    cases hadvance
    refine ⟨of_done rfl, fun _ _ hitem => ?_⟩
    cases hitem
  | succ steps ih =>
    rw [advanceWithin] at hadvance
    rcases hstep : c.step s.store with ⟨_ | ⟨slot, e⟩, c₁⟩
    · rw [hstep] at hadvance
      cases hadvance
      refine ⟨of_done (done_of_step hstep), fun _ _ hitem => ?_⟩
      cases hitem
    · rw [hstep] at hadvance
      obtain ⟨hmeets, h₁⟩ := h.of_step hs hnode hstep
      have hsame := continues_of_step hstep
      obtain ⟨_, _, _, he, _⟩ := exists_of_step hstep
      simp only at hadvance
      split at hadvance
      · cases hadvance
        refine ⟨h₁, fun _ _ hitem => ?_⟩
        cases hitem
        exact ⟨e.edge, Store.edge?_eq_some he, hmeets⟩
      · exact ih h₁ (by rw [hsame.node]; exact hnode) hadvance

end OnCourse

end AdjacencyCursor

namespace EdgeIterator

variable {it it' : EdgeIterator} {s s' : Session} {order : List Nat} {node : Node}
  {label : Option String} {edge : Edge} {space : GraphSpace}

theorem exists_of_seekWithin {steps : Nat} (h : seekWithin s steps it = (some edge, it')) :
    ∃ slot p, s.store.edge? slot = some edge ∧ it'.phase = some p := by
  induction steps generalizing it with
  | zero => cases h
  | succ steps ih =>
    rw [seekWithin] at h
    rcases hadvance : it.cursor.advance s.store with ⟨_ | ⟨slot, p⟩, cursor⟩
    · rw [hadvance] at h
      cases h
    · rw [hadvance] at h
      simp only at h
      split at h
      · exact ih h
      · next found hfound =>
        split at h
        · cases h
        · exact ih h
        · cases h
          exact ⟨slot, p, hfound, rfl⟩

/-- An iterator through no view walks around the node and along the label. -/
structure OnCourse (it : EdgeIterator) (s : Store) (node : Node) (label : Option String) : Prop where
  filter : it.filter = none
  exists_cursor : ∃ c, it.cursor = .adjacent c ∧ c.OnCourse s node label

/-- The slots that the walk of the iterator goes by are kept between two moments. -/
def SlotsKept (it : EdgeIterator) (node : Node) (s s' : Store) : Prop :=
  ∀ c, it.cursor = .adjacent c → c.SlotsKept node s s'

namespace OnCourse

theorem seek (h : it.OnCourse s.store node label) (hs' : s'.Consistent order)
    (hslotsKept : it.SlotsKept node s.store s'.store)
    (hlabels : s.store.labels.StaysIn s'.store.labels) :
    (it.seek s').2.OnCourse s'.store node label ∧ ∀ edge it', it.seek s' = (some edge, it') →
      ∃ p, it'.phase = some p ∧ edge.Meets p node label := by
  obtain ⟨hfilter, c, hcursor, hcourse⟩ := h
  have hslots := hslotsKept c hcursor
  have hcourse' := hcourse.of_slotsKept hslots hlabels
  obtain ⟨guard, cursor, filter, current, phase⟩ := it
  subst hfilter hcursor
  have hseek : seek ⟨guard, .adjacent c, none, current, phase⟩ s' =
      seekWithin s' (s'.store.walkBound - 1 + 1) ⟨guard, .adjacent c, none, current, phase⟩ := rfl
  rw [hseek, seekWithin, EdgeCursor.advance, AdjacencyCursor.advance]
  rcases hadvance : c.advanceWithin s'.store s'.store.walkBound with ⟨_ | ⟨slot, p⟩, c'⟩
  · obtain ⟨h', _⟩ := hcourse'.of_advanceWithin hs' hslots.node hadvance
    refine ⟨⟨rfl, c', rfl, h'⟩, fun _ _ hfound => ?_⟩
    cases hfound
  · obtain ⟨h', hitem⟩ := hcourse'.of_advanceWithin hs' hslots.node hadvance
    obtain ⟨edge, hedge, hmeets⟩ := hitem slot p rfl
    simp only [hedge, shows?]
    refine ⟨⟨rfl, c', rfl, h'⟩, fun _ _ hfound => ?_⟩
    cases hfound
    exact ⟨p, rfl, hmeets⟩

end OnCourse

/-- Removing what came last does not move the iterator. It removes an edge, or nothing. -/
theorem remove_cases (it : EdgeIterator) (space : GraphSpace) :
    ((it.remove space).1.2 = it ∧ (it.remove space).2 = space) ∨
    ∃ edge, (it.remove space).1.2 = { it with current := none } ∧
      (it.remove space).2 = (it.guard.graph.run (removeEdge edge) space).2 := by
  have hspace : it.guard.graph.checkWriter space = ((it.guard.graph.checkWriter space).1, space) := by
    rw [checkWriter_apply]
    cases space.shared? it.guard.graph <;> rfl
  rw [remove]
  split
  · exact .inl ⟨rfl, rfl⟩
  · rw [hspace]
    cases (it.guard.graph.checkWriter space).1 with
    | error fault => exact .inl ⟨rfl, rfl⟩
    | ok _ =>
      cases it.current with
      | none => exact .inl ⟨rfl, rfl⟩
      | some edge => exact .inr ⟨edge, rfl, rfl⟩

end EdgeIterator

/-! ### Programs that walk on while they change the graph -/

/-- A walk of a program that changes the graph between the steps: the iterator, the graphs as they are,
and as they were when the iterator looked at them last. It is recorded whether the slots that it goes by
were kept each time it looked. -/
structure WalkRun where
  it : EdgeIterator
  space : GraphSpace
  seen : GraphSpace
  slotsKept : Prop

namespace WalkRun

variable {r r' : WalkRun} {g : Graph} {node : Node} {label : Option String}

def begin (it : EdgeIterator) (space : GraphSpace) : WalkRun where
  it := it
  space := space
  seen := space
  slotsKept := True

/-- Since it looked last, no slot that the walk goes by has passed to another element. -/
def SlotsKept (r : WalkRun) (node : Node) : Prop :=
  ∀ s s', r.seen.session? r.it.guard.graph = some s →
    r.space.session? r.it.guard.graph = some s' → r.it.SlotsKept node s.store s'.store

/-- A walk around a node goes on, or nodes and edges come and go, or something happens that leaves the
store of the graph alone: locks are taken and given back, or other graphs are worked on. -/
inductive Step (node : Node) (r : WalkRun) : WalkRun → Prop where
  | called (command : Command) (helemental : command.isElemental = true) :
    Step node r { r with space := (r.it.guard.graph.call command r.space).2 }
  /-- The edge that came last is removed through the iterator. -/
  | removed : Step node r
    { r with it := (r.it.remove r.space).1.2, space := (r.it.remove r.space).2 }
  | elsewhere (space : GraphSpace) (h : History space)
    (hstore : (space.session? r.it.guard.graph).map (·.store) =
      (r.space.session? r.it.guard.graph).map (·.store)) :
    Step node r { r with space := space }
  | advanced : Step node r
    { it := (r.it.next r.space).2
      space := r.space
      seen := r.space
      slotsKept := r.slotsKept ∧ r.SlotsKept node }

/-- What holds of a walk at all times: no label has gone since the iterator looked last, and a walk whose
slots were kept is on course. -/
structure Tracked (g : Graph) (node : Node) (label : Option String) (r : WalkRun) : Prop where
  guard_eq : r.it.guard.graph = g
  history : History r.space
  exists_sessions : ∃ s s', r.seen.session? g = some s ∧ r.space.session? g = some s' ∧
    s.store.labels.StaysIn s'.store.labels ∧ (r.slotsKept → r.it.OnCourse s.store node label)

namespace Tracked

theorem begin {space space' : GraphSpace} {direction : Direction} {folded : Bool} {it : EdgeIterator}
    (h : History space)
    (hopened : (Query.around node direction label folded).iterator g space = (.ok (.edges it), space')) :
    (WalkRun.begin it space').Tracked g node label := by
  obtain ⟨hguard, hentered⟩ := Query.enter_of_iterator hopened
  obtain ⟨shared, _, _, hshared, _⟩ := exists_granted_of_enter hentered
  have hs := session?_of_shared? hshared
  have hs' := (Query.session?_of_iterator hopened g).trans hs
  obtain ⟨order, hconsistent⟩ := (h.orderly.settled _ _ hs).consistent
  have h' := (sameSessions_enter g .read space).history h
  rw [hentered] at h'
  obtain ⟨start, hstart, heq⟩ := exists_of_map hopened
  obtain ⟨guard, slot, _, rfl, _⟩ := EdgeIterator.exists_of_startAround hs hstart
  cases heq
  exact ⟨hguard, h', _, _, hs', hs', .refl _,
    fun _ => ⟨rfl, _, rfl, .around hconsistent slot direction label folded⟩⟩

theorem of_kept {it : EdgeIterator} {space : GraphSpace} (h : r.Tracked g node label)
    (hspace : History space) (hguard : it.guard = r.it.guard) (hfilter : it.filter = r.it.filter)
    (hcursor : it.cursor = r.it.cursor)
    (hkept : ∀ s', r.space.session? g = some s' → ∃ s'', space.session? g = some s'' ∧
      s'.store.labels.StaysIn s''.store.labels) :
    Tracked g node label { r with it, space } := by
  obtain ⟨hgraph, _, s, s', hs, hs', hlabels, hcourse⟩ := h
  obtain ⟨s'', hs'', hkept⟩ := hkept s' hs'
  refine ⟨hguard ▸ hgraph, hspace, s, s'', hs, hs'', hlabels.trans hkept, fun hslotsKept => ?_⟩
  obtain ⟨hthrough, c, hc, hon⟩ := hcourse hslotsKept
  exact ⟨hfilter.trans hthrough, c, hcursor.trans hc, hon⟩

theorem exists_of_run {s : Session} {space : GraphSpace} (command : Command) (h : History space)
    (helemental : command.isElemental = true) (hs : space.session? g = some s) :
    ∃ s', (g.run command.act space).2.session? g = some s' ∧
      s.store.labels.StaysIn s'.store.labels := by
  obtain ⟨order, hconsistent⟩ := (h.orderly.settled _ _ hs).consistent
  exact ⟨command.perform s, session?_run hs command.act,
    (keepsLabels_perform helemental s order hconsistent).2⟩

theorem step (h : r.Tracked g node label) (hstep : r.Step node r') : r'.Tracked g node label := by
  obtain rfl := h.guard_eq
  cases hstep with
  | called command helemental =>
    refine h.of_kept (h.history.during _ command.mode command) rfl rfl rfl fun s' hs' => ?_
    rcases during_cases r.space r.it.guard.graph command.mode command.act with
      ⟨fault, hsame⟩ | ⟨_, hmade⟩
    · rw [Graph.call, hsame]
      exact ⟨s', hs', .refl _⟩
    · obtain ⟨s'', hs'', hkept⟩ := exists_of_run command h.history helemental hs'
      exact ⟨s'', (hmade.sameSessions.session? _).trans hs'', hkept⟩
  | removed =>
    rcases r.it.remove_cases r.space with ⟨hit, hspace⟩ | ⟨edge, hit, hspace⟩
    · rw [hit, hspace]
      exact h
    · have hremoved := History.called r.space r.it.guard.graph (.removeEdge edge) h.history
      have hkept := fun s (hs : r.space.session? r.it.guard.graph = some s) =>
        exists_of_run (.removeEdge edge) h.history rfl hs
      rw [hit, hspace]
      exact h.of_kept hremoved rfl rfl rfl hkept
  | elsewhere space hspace hstore =>
    refine h.of_kept hspace rfl rfl rfl fun s' hs' => ?_
    rw [hs', Option.map_some, Option.map_eq_some_iff] at hstore
    obtain ⟨s'', hs'', hsame⟩ := hstore
    exact ⟨s'', hs'', .of_eq (congrArg Store.labels hsame)⟩
  | advanced =>
    obtain ⟨s, s', hs, hs', hlabels, hcourse⟩ := h.exists_sessions
    obtain ⟨order, hconsistent⟩ := (h.history.orderly.settled _ _ hs').consistent
    have hnext : r.it.next r.space = r.it.seek s' := by rw [EdgeIterator.next, hs']
    refine ⟨?_, h.history, s', s', ?_, ?_, .refl _, fun hslotsKept => ?_⟩
    · simp only [hnext]
      exact congrArg Guard.graph (EdgeIterator.seekWithin_keeps s' _ r.it).1
    · exact hs'
    · exact hs'
    · simp only [hnext]
      exact ((hcourse hslotsKept.1).seek hconsistent (hslotsKept.2 s s' hs hs') hlabels).1

theorem run (h : r.Tracked g node label) (hrun : Relation.ReflTransGen (Step node) r r') :
    r'.Tracked g node label := by
  induction hrun with
  | refl => exact h
  | tail _ hstep ih => exact ih.step hstep

end Tracked

theorem exists_called (r : WalkRun) (node : Node) {s : Session} (command : Command)
    (helemental : command.isElemental = true)
    (hs : r.space.session? r.it.guard.graph = some s) (hwriter : r.space.IsWriter r.it.guard.graph)
    (hcan : r.space.CanHold r.it.guard.graph) :
    ∃ space, r.Step node { r with space } ∧
      space.session? r.it.guard.graph = some (command.perform s) ∧
      space.IsWriter r.it.guard.graph ∧ space.CanHold r.it.guard.graph := by
  have hmode : command.mode = .write := by
    refine command.mode_cases.resolve_right ?_
    rintro ⟨o, rfl⟩
    cases helemental
  have hcalled : r.it.guard.graph.call command r.space = r.it.guard.graph.run command.act r.space := by
    rw [Graph.call, hmode]
    exact hwriter.during_write hcan command.act
  refine ⟨_, .called command helemental, ?_⟩
  rw [hcalled]
  exact ⟨session?_run hs command.act, hwriter.run command.act, hcan.of_lock (lock?_run _ _ _)⟩

end WalkRun

/-! ### A node in the slot of another -/

namespace Session

def newcomer : Node := { serial := 3, id := .int 3 }

def newcomerLoop : Edge :=
  { serial := 4, id := .int 4, source := newcomer, target := newcomer, label := "self",
    directed := true }

def slotReused : Session where
  catalog :=
    { nodeHomes := (((∅ : Std.HashMap Node Home).insert hub ⟨0, 0⟩).erase hub).insert newcomer ⟨0, 0⟩ }
  store :=
    { Store.empty 0 {} with
      nodes :=
        { arena :=
            { growth := .blocks 1024
              blocks := #[{ slots := #[some { node := newcomer }], live := 1 }]
              length := 1
              size := 1 }
          ids := (((∅ : Std.HashMap ElementId Nat).insert (.int 1) 0).erase (.int 1)).insert (.int 3) 0 }
      views := lone.store.views.map (·.forgetNode 0)
      version := { node := 3 } }

theorem perform_addNode_newcomer :
    (Command.addNode newcomer).perform ((Command.removeNode hub).perform lone) = slotReused := by
  obtain ⟨order, hrecorded⟩ := history_lone.recorded
  have hhub : lone.store.node? 0 = some hub := rfl
  have hvacated : (Command.removeNode hub).perform lone = (lone.forgetNode 0 hub).bumpIf true false :=
    congrArg Prod.snd (removeNode_of_bare hrecorded.consistent hhub rfl)
  have hhome : ((lone.forgetNode 0 hub).bumpIf true false).nodeSlot? newcomer = .ok none := by
    rw [nodeSlot?]
    simp [lone, forgetNode, bumpIf, withStore, withCatalog, Catalog.unbindNode, hub, newcomer]
  have hfree : ((lone.forgetNode 0 hub).bumpIf true false).store.nodes.ids.contains newcomer.id =
      false := by
    simp [lone, forgetNode, bumpIf, withStore, withCatalog, NodeTable.remove, hub, newcomer]
  rw [hvacated, Command.perform, Command.act, addNode_of_fresh rfl hhome hfree rfl]
  rfl

theorem addEdge_newcomerLoop :
    addEdge newcomerLoop slotReused = placeEdge newcomerLoop 0 0 slotReused := by
  have hhome : slotReused.edgeSlot? newcomerLoop = .ok none := by
    rw [edgeSlot?]
    simp [slotReused]
  have hnewcomer : slotReused.nodeSlot? newcomer = .ok (some 0) := by
    have hbound : slotReused.catalog.nodeHomes[newcomer]? = some ⟨0, 0⟩ :=
      Std.HashMap.getElem?_insert_self
    rw [nodeSlot?, hbound]
    rfl
  have hend : ∀ role, slotReused.endSlot newcomerLoop role = .ok 0 := by
    intro role
    have hnode : newcomerLoop.node role = newcomer := by cases role <;> rfl
    rw [endSlot, hnode, hnewcomer]
    rfl
  have hrefusal : slotReused.refusal? newcomerLoop 0 0 = none := by
    rw [refusal?]
    simp [slotReused, Store.empty, EdgeTable.ofBlockSize, LabelRegistry.idOf?, Kind.admits]
  exact addEdge_of_fresh rfl hhome (hend .source) (hend .target) hrefusal

theorem placeEdge_newcomerLoop : ∃ N e, N.heads.outgoing = #[some 0] ∧ e.edge = newcomerLoop ∧
    (placeEdge newcomerLoop 0 0 slotReused).2.store.nodes.get? 0 = some N ∧
    (placeEdge newcomerLoop 0 0 slotReused).2.store.edges.get? 0 = some e := by
  have hlabel : slotReused.store.labels.add "self" = lone.store.labels.add "self" := rfl
  rw [placeEdge]
  simp only [Action.bind_apply, Action.onStore_apply, newcomerLoop, hlabel, labels_add_lone]
  exact ⟨_, _, rfl, rfl, rfl, rfl⟩

end Session

theorem AdjacencyCursor.step_of_head {s : Store} {N : NodeSlot} {e : EdgeSlot}
    (hN : s.nodes.get? 0 = some N) (hheads : N.heads.outgoing = #[some 0])
    (he : s.edges.get? 0 = some e) : (start 0 .outgoing none false).step s =
      (some (0, e),
        { start 0 .outgoing none false with nextLabel := 1, next := e.next? .outgoing }) := by
  have hhead : findHead #[some 0] 0 1 = some (0, 1) := by
    rw [findHead]
    rfl
  have hhere : (start 0 .outgoing none false).openInPhase N =
      some { start 0 .outgoing none false with next := some 0, nextLabel := 1 } := by
    change (findHead N.heads.outgoing 0 N.heads.outgoing.size).map _ = _
    rw [hheads]
    exact congrArg (Option.map _) hhead
  have hopen : (start 0 .outgoing none false).openChain s =
      some { start 0 .outgoing none false with next := some 0, nextLabel := 1 } := by
    refine Option.bind_eq_some_iff.mpr ⟨N, hN, ?_⟩
    rw [hhere]
    rfl
  rw [step, hopen]
  simp [start, he, Direction.firstPhase]

theorem AdjacencyCursor.advance_of_head {s : Store} {N : NodeSlot} {e : EdgeSlot}
    (hN : s.nodes.get? 0 = some N) (hheads : N.heads.outgoing = #[some 0])
    (he : s.edges.get? 0 = some e) : (start 0 .outgoing none false).advance s =
      (some (0, .outgoing),
        { start 0 .outgoing none false with nextLabel := 1, next := e.next? .outgoing }) := by
  rw [advance, Store.walkBound, Nat.mul_succ, advanceWithin, step_of_head hN hheads he]
  rfl

namespace GraphSpace

variable {space : GraphSpace} {g : Graph}

def loneHeld : GraphSpace := heldAfter [.addNode hub]

theorem session?_loneHeld : loneHeld.session? ⟨0⟩ = some lone :=
  (session?_heldAfter _).trans (congrArg some perform_addNode_hub)

theorem next_of_head (guard : Guard) {s : Session} {N : NodeSlot} {e : EdgeSlot}
    (hs : space.session? guard.graph = some s) (hN : s.store.nodes.get? 0 = some N)
    (hheads : N.heads.outgoing = #[some 0]) (he : s.store.edges.get? 0 = some e) :
    ∃ it', ({ guard, cursor := .adjacent (.start 0 .outgoing none false) } : EdgeIterator).next space =
      (some e.edge, it') ∧ it'.phase = some .outgoing := by
  have hedge : s.store.edge? 0 = some e.edge := Store.edge?_eq_some he
  refine ⟨{ guard := guard
            cursor := .adjacent { AdjacencyCursor.start 0 .outgoing none false with
              nextLabel := 1, next := e.next? .outgoing }
            current := some e.edge
            phase := some .outgoing }, ?_, rfl⟩
  rw [EdgeIterator.next, hs]
  change EdgeIterator.seekWithin s (s.store.walkBound - 1 + 1) _ = _
  rw [EdgeIterator.seekWithin, EdgeCursor.advance, AdjacencyCursor.advance_of_head hN hheads he]
  simp only [hedge, EdgeIterator.shows?]

def aroundFirst (epoch : UInt64) : EdgeIterator where
  guard := ⟨⟨0⟩, .read epoch⟩
  cursor := .adjacent (.start 0 .outgoing none false)

theorem exists_iterator_loneHeld : ∃ epoch space',
    (Query.around hub .outgoing none false).iterator ⟨0⟩ loneHeld =
      (.ok (.edges (aroundFirst epoch)), space') ∧
    space'.session? ⟨0⟩ = some lone ∧ space'.IsWriter ⟨0⟩ ∧ space'.CanHold ⟨0⟩ := by
  have hslot : lone.resolveNode hub = .ok 0 := by
    have hbound : lone.catalog.nodeHomes[hub]? = some ⟨0, 0⟩ := Std.HashMap.getElem?_insert_self
    rw [resolveNode, nodeSlot?, hbound]
    rfl
  have hopened := Query.iterator_around (enter_read_eq (lock?_heldAfter _) rfl rfl) session?_loneHeld
    hslot .outgoing none false
  refine ⟨_, _, hopened, ?_, ?_, canHold_enter_read (lock?_heldAfter _)⟩
  · exact (Query.session?_of_iterator hopened ⟨0⟩).trans session?_loneHeld
  · exact IsWriter.of_enter ⟨_, (lock?_heldAfter _), rfl⟩ (Query.enter_of_iterator hopened).2

/-! ### Staying at the node, and leaving it -/

/-- Whatever happens between the steps of a walk around a node, it comes to edges that are stored at that
moment. As long as the slots that it goes by are kept, they are at the node, at the end that belongs to
the phase, and have the label that was asked for. -/
theorem History.stays_at_node {space space' : GraphSpace} {g : Graph} {node : Node}
    {direction : Direction} {label : Option String} {folded : Bool} {it it' : EdgeIterator}
    {r : WalkRun} {edge : Edge} (h : History space)
    (hopened : (Query.around node direction label folded).iterator g space = (.ok (.edges it), space'))
    (hrun : Relation.ReflTransGen (WalkRun.Step node) (.begin it space') r)
    (hnext : r.it.next r.space = (some edge, it')) :
    ∃ s p, r.space.session? g = some s ∧ s.containsEdge edge = true ∧ it'.phase = some p ∧
      (r.slotsKept → r.SlotsKept node → edge.Meets p node label) := by
  have htracked := (WalkRun.Tracked.begin h hopened).run hrun
  obtain rfl := htracked.guard_eq
  obtain ⟨s, s', hs, hs', hlabels, hcourse⟩ := htracked.exists_sessions
  obtain ⟨order, hconsistent⟩ := (htracked.history.orderly.settled _ _ hs').consistent
  rw [EdgeIterator.next, hs'] at hnext
  obtain ⟨slot, p, hedge, hphase⟩ := EdgeIterator.exists_of_seekWithin hnext
  refine ⟨s', p, hs', hconsistent.containsEdge_iff.mpr ⟨slot, hedge⟩, hphase, fun hslotsKept hnow => ?_⟩
  obtain ⟨q, hq, hmeets⟩ :=
    ((hcourse hslotsKept).seek hconsistent (hnow s s' hs hs') hlabels).2 _ _ hnext
  rw [hphase, Option.some.injEq] at hq
  rwa [hq]

theorem stays_at_node_lone : ∃ it space' r it', History loneHeld ∧
    (Query.around hub .outgoing none false).iterator ⟨0⟩ loneHeld = (.ok (.edges it), space') ∧
    Relation.ReflTransGen (WalkRun.Step hub) (.begin it space') r ∧
    r.it.next r.space = (some selfEdge, it') ∧ r.slotsKept ∧ r.SlotsKept hub ∧
    ∃ s p, r.space.session? ⟨0⟩ = some s ∧ s.containsEdge selfEdge = true ∧ it'.phase = some p ∧
      (r.slotsKept → r.SlotsKept hub → selfEdge.Meets p hub none) := by
  obtain ⟨epoch, space', hopened, hs, hwriter, hcan⟩ := exists_iterator_loneHeld
  obtain ⟨stored, hstep, hstored, _⟩ := WalkRun.exists_called
    (.begin (aroundFirst epoch) space') hub (.addEdge selfEdge) rfl hs hwriter hcan
  rw [← perform_addNode_hub] at hstored
  change stored.session? ⟨0⟩ = some looped at hstored
  obtain ⟨it', hnext, _⟩ := next_of_head ⟨⟨0⟩, .read epoch⟩ hstored get?_looped.1 rfl
    get?_looped.2
  have hrun := Relation.ReflTransGen.single hstep
  refine ⟨_, space', _, it', history_heldAfter _, hopened, hrun, hnext, trivial, ?_,
    (history_heldAfter _).stays_at_node hopened hrun hnext⟩
  intro s s' _ hs' c hcursor
  cases hcursor
  obtain rfl : looped = s' := Option.some.inj (hstored.symm.trans hs')
  refine ⟨fun other hother => Option.some.inj (hother.symm.trans node?_looped),
    fun slot edge hslot _ => ?_⟩
  cases hslot

/-- A node that gets the slot of another gets the walk around it too: the walk comes to a loop of the
new node. -/
theorem leaves_node_slotReused : ∃ it space' r it', History loneHeld ∧
    (Query.around hub .outgoing none false).iterator ⟨0⟩ loneHeld = (.ok (.edges it), space') ∧
    Relation.ReflTransGen (WalkRun.Step hub) (.begin it space') r ∧
    r.it.next r.space = (some newcomerLoop, it') ∧ it'.phase = some .outgoing ∧
    ¬ newcomerLoop.Meets .outgoing hub none := by
  obtain ⟨epoch, space', hopened, hs, hwriter, hcan⟩ := exists_iterator_loneHeld
  obtain ⟨vacated, hremoved, hs₁, hwriter₁, hcan₁⟩ := WalkRun.exists_called
    (.begin (aroundFirst epoch) space') hub (.removeNode hub) rfl hs hwriter hcan
  obtain ⟨settled, hsettled, hs₂, hwriter₂, hcan₂⟩ := WalkRun.exists_called
    { WalkRun.begin (aroundFirst epoch) space' with space := vacated } hub
    (.addNode newcomer) rfl hs₁ hwriter₁ hcan₁
  obtain ⟨stored, hstored, hs₃, _⟩ := WalkRun.exists_called
    { WalkRun.begin (aroundFirst epoch) space' with space := settled } hub
    (.addEdge newcomerLoop) rfl hs₂ hwriter₂ hcan₂
  rw [perform_addNode_newcomer, Command.perform, Command.act, addEdge_newcomerLoop] at hs₃
  obtain ⟨N, e, hheads, hedge, hN, he⟩ := placeEdge_newcomerLoop
  obtain ⟨it', hnext, hphase⟩ := next_of_head ⟨⟨0⟩, .read epoch⟩ hs₃ hN hheads he
  rw [hedge] at hnext
  exact ⟨_, space', _, it', history_heldAfter _, hopened,
    ((Relation.ReflTransGen.single hremoved).tail hsettled).tail hstored, hnext, hphase,
    fun hmeets => absurd hmeets.node_eq (by decide)⟩

end GraphSpace

end PropertyGraph

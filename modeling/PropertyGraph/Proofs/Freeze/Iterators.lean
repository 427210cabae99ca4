import PropertyGraph.Proofs.Adjacency
import PropertyGraph.Proofs.Freeze.Program
import PropertyGraph.Proofs.Walks.Queries

/-!
# Iterators of a program

An iterator that a program has opened is asked now and then, among all other calls of the program. While
its guard owns a hold the graph stays as it is, so it answers as if nobody had done anything: it
comes to what the query that it is for listed when it was opened. That is so as long as the holds of the
program can be counted; one more hold than that, and the graph can be written under the iterator.
-/

namespace PropertyGraph

open GraphSpace Session

variable {space space' : GraphSpace} {s s' : Session}

/-! ### What an iterator looks at -/

namespace NodeIterator

theorem shows?_congr {it : NodeIterator} (h : SameFor it.filter s s') : it.shows? s' = it.shows? s := by
  funext slot
  rw [shows?, shows?]
  split
  · rfl
  · next view hfilter =>
    rw [hfilter] at h
    rw [h.viewRecord_eq]

theorem seek_congr {it : NodeIterator} (h : SameFor it.filter s s') : it.seek s' = it.seek s := by
  fun_induction it.seek s with
  | case1 it hnone => exact seek_of_nextLive?_eq_none (h.store ▸ hnone)
  | case2 it slot hslot moved node hshown hnode =>
    rw [seek_of_nextLive? (h.store ▸ hslot), shows?_congr h, h.store, hshown, hnode]
  | case3 it slot hslot moved hhidden ih =>
    rw [seek_of_nextLive? (h.store ▸ hslot), shows?_congr h, hhidden]
    exact ih h
  | case4 it slot hslot moved hhidden hfree =>
    rw [seek_of_nextLive? (h.store ▸ hslot), shows?_congr h, h.store]
    split
    · next node hshown hnode => exact (hfree node hshown hnode).elim
    · next hhides => exact (hhidden hhides).elim
    · rfl

theorem seek_keeps (it : NodeIterator) (s : Session) :
    (it.seek s).2.guard = it.guard ∧ (it.seek s).2.filter = it.filter := by
  fun_induction it.seek s with
  | case1 | case2 | case4 => exact ⟨rfl, rfl⟩
  | case3 it slot hslot moved hhidden ih => exact ih

end NodeIterator

namespace EdgeIterator

theorem shows?_congr {it : EdgeIterator} (h : SameFor it.filter s s') : it.shows? s' = it.shows? s := by
  have hrecord : s'.recordShowsEdge = s.recordShowsEdge := by
    funext r i
    rw [recordShowsEdge, h.store, recordShowsEdge]
  funext slot
  rw [shows?, shows?]
  split
  · rfl
  · next view hfilter =>
    rw [hfilter] at h
    rw [h.viewRecord_eq, hrecord]

theorem seekWithin_congr {it : EdgeIterator} (h : SameFor it.filter s s') (steps : Nat) :
    seekWithin s' steps it = seekWithin s steps it := by
  induction steps generalizing it with
  | zero => rfl
  | succ steps ih =>
    rw [seekWithin, seekWithin, h.store, shows?_congr h]
    rcases it.cursor.advance s.store with ⟨_ | ⟨slot, phase⟩, cursor⟩
    · rfl
    · have hpassed : seekWithin s' steps { it with cursor } = seekWithin s steps { it with cursor } :=
        ih h
      simp only
      rw [hpassed]

theorem seekWithin_keeps (s : Session) (steps : Nat) (it : EdgeIterator) :
    (seekWithin s steps it).2.guard = it.guard ∧ (seekWithin s steps it).2.filter = it.filter := by
  induction steps generalizing it with
  | zero => exact ⟨rfl, rfl⟩
  | succ steps ih =>
    rw [seekWithin]
    rcases it.cursor.advance s.store with ⟨_ | ⟨slot, phase⟩, cursor⟩
    · exact ⟨rfl, rfl⟩
    · have hpassed := ih { it with cursor }
      simp only
      split
      · exact hpassed
      · split
        · exact ⟨rfl, rfl⟩
        · exact hpassed
        · exact ⟨rfl, rfl⟩

end EdgeIterator

namespace Iterator

variable {it : Iterator}

theorem next_keeps (it : Iterator) (space : GraphSpace) :
    (it.next space).2.guard = it.guard ∧ (it.next space).2.filter = it.filter := by
  cases it with
  | nodes it =>
    rw [next_nodes, guard, guard, filter, filter, NodeIterator.next]
    split
    · exact it.seek_keeps _
    · exact ⟨rfl, rfl⟩
  | edges it =>
    rw [next_edges, guard, guard, filter, filter, EdgeIterator.next]
    split
    · exact EdgeIterator.seekWithin_keeps _ _ it
    · exact ⟨rfl, rfl⟩

theorem next_congr (h : SameFor it.filter s s') (hs : space.session? it.guard.graph = some s)
    (hs' : space'.session? it.guard.graph = some s') : it.next space' = it.next space := by
  cases it with
  | nodes it =>
    have hsame : it.next space' = it.next space := by
      rw [NodeIterator.next, NodeIterator.next]
      rw [guard] at hs hs'
      rw [hs, hs']
      exact NodeIterator.seek_congr h
    rw [next_nodes, next_nodes, hsame]
  | edges it =>
    have hsame : it.next space' = it.next space := by
      rw [EdgeIterator.next, EdgeIterator.next]
      rw [guard] at hs hs'
      rw [hs, hs']
      simp only [EdgeIterator.seek, h.store]
      exact EdgeIterator.seekWithin_congr h _
    rw [next_edges, next_edges, hsame]

theorem Lists.tail {listing : List Item} (h : it.Lists space listing) :
    (it.next space).2.Lists space listing.tail := by
  intro n
  rw [List.getElem?_tail]
  exact h (n + 1)

end Iterator

/-! ### A program and one of its iterators -/

namespace Program

variable {g : Graph} {p p' : Program} {it it' : Iterator} {answers : List (Option Item)}
  {listing : List Item} {number : Nat}

namespace Iterates

theorem inRange (h : Iterates g p it p' it' answers) (hp : p.InRange g) : p'.InRange g := by
  induction h with
  | begun => exact hp
  | called p' p'' it' answers _ hroom hstep ih => exact .step p' p'' ih hroom hstep
  | asked p' it' answers _ ih => exact ih
  | removed p' it' answers _ hroom ih => exact .step p' _ ih hroom (.removed it')

theorem log_suffix (h : Iterates g p it p' it' answers) (hp : p.InRange g) : p.log <:+ p'.log := by
  induction h with
  | begun => exact List.suffix_rfl
  | called p' p'' it' answers h hroom hstep ih =>
    exact ih.trans (((h.inRange hp).turn hroom hstep).log_suffix (h.inRange hp))
  | asked p' it' answers _ ih => exact ih
  | removed p' it' answers _ _ ih => exact ih

end Iterates

/-- Where an iterator has come to that lists something: the graph is as it was and is not written by its
program, the iterator has answered the first items, and comes to the others. -/
structure AsListed (g : Graph) (listing : List Item) (p : Program) (it : Iterator) (p' : Program)
    (it' : Iterator) (answers : List (Option Item)) : Prop where
  not_writes : ¬p'.space.Writes g
  storeKept : StoreKept g p.space p'.space
  graph : it'.guard.graph = g
  filter : it'.filter = it.filter
  lists : it'.Lists p.space (listing.drop answers.length)
  answers_eq : answers = (List.range answers.length).map (listing[·]?)

namespace AsListed

theorem next_eq (h : AsListed g listing p it p' it' answers) (hs : p.space.session? g = some s)
    (hview : ∀ view, it.filter = some view → view.store = g.token) :
    it'.next p'.space = it'.next p.space := by
  rw [← h.filter] at hview
  obtain ⟨s', hs', hsame⟩ := h.storeKept.exists_sameFor hs hview
  exact it'.next_congr hsame (by rw [h.graph, hs]) (by rw [h.graph, hs'])

theorem asked (h : AsListed g listing p it p' it' answers) (hs : p.space.session? g = some s)
    (hview : ∀ view, it.filter = some view → view.store = g.token) :
    AsListed g listing p it p' (it'.next p'.space).2 (answers ++ [(it'.next p'.space).1]) := by
  obtain ⟨hguard, hfilter⟩ := it'.next_keeps p'.space
  have hanswer : (it'.next p.space).1 = listing[answers.length]? := by
    have hfirst := h.lists 0
    rwa [List.getElem?_drop] at hfirst
  refine ⟨h.not_writes, h.storeKept, by rw [hguard, h.graph], hfilter.trans h.filter, ?_, ?_⟩
  · rw [h.next_eq hs hview, List.length_append, List.length_singleton, ← List.tail_drop]
    exact h.lists.tail
  · rw [h.next_eq hs hview, hanswer, List.length_append, List.length_singleton, List.range_succ,
      List.map_append, ← h.answers_eq]
    rfl

end AsListed

/-- An iterator whose guard owns a hold has come through its listing. -/
theorem Iterates.asListed (h : Iterates g p it p' it' answers) (hp : p.InRange g)
    (hused : .took caller .read (some number) ∈ p.log) (hwrites : ¬p.space.Writes g)
    (hs : p.space.session? g = some s) (hgraph : it.guard.graph = g)
    (hview : ∀ view, it.filter = some view → view.store = g.token)
    (hlists : it.Lists p.space listing) (hbalanced : Lock.Balanced p'.log)
    (hfew : Lock.FewRestarts p'.log) (howns : p'.Owns number) :
    AsListed g listing p it p' it' answers := by
  induction h with
  | begun => exact ⟨hwrites, .refl g p.space, hgraph, rfl, hlists, rfl⟩
  | called p' p'' it' answers h hroom hstep ih =>
    -- the guard owned its hold before the call as well, so the graph was read
    have hp' := h.inRange hp
    have hturn := hp'.turn hroom hstep
    have hbalanced' := hbalanced.of_suffix (hturn.log_suffix hp')
    have hfew' := hfew.of_suffix (hturn.log_suffix hp')
    have howns' := hturn.owns_of hp' ((h.log_suffix hp).subset hused) howns
    have hreads := hp'.reads hbalanced' hfew' howns'
    have hbefore := ih hbalanced' hfew' howns'
    have hwrites' : ¬p''.space.Writes g := by
      intro hwrites'
      rcases hturn.writes_cases hp' hwrites' with hwrote | ⟨hidle, _⟩
      · exact hbefore.not_writes hwrote
      · exact hidle hreads
    exact ⟨hwrites',
      hbefore.storeKept.trans (hturn.storeKept hp' (hp'.reading hreads hbefore.not_writes)),
      hbefore.graph, hbefore.filter, hbefore.lists, hbefore.answers_eq⟩
  | asked p' it' answers h ih => exact (ih hbalanced hfew howns).asked hs hview
  | removed p' it' answers h hroom ih =>
    have hbefore := ih hbalanced hfew howns
    have hp' := h.inRange hp
    have hfrozen := (hp'.reading (hp'.reads hbalanced hfew howns) hbefore.not_writes).frozen
    obtain ⟨fault, hrefused, _⟩ := hfrozen.remove it' hbefore.graph
    rw [hrefused]
    exact hbefore

end Program

/-! ### Frozen graphs -/

namespace Query

variable {q : Query} {guard : Guard} {it : Iterator}

theorem Begins.store_eq (h : Begins s guard it) {view : View} (hview : it.filter = some view) :
    view.store = s.store.token := by
  have hsees : s.Sees it.filter := by cases h <;> assumption
  obtain ⟨r, hr⟩ := hsees view hview
  by_contra hforeign
  rw [viewRecord, viewSlot, if_pos hforeign] at hr
  cases hr

end Query

variable {g : Graph} {p : Program} {it : Iterator}

/-- An iterator that a program opens comes to what its query lists, looking through no view but one of
its graph. -/
theorem Program.InRange.exists_listing {q : Query} (h : p.InRange g)
    (hcall : q.iterator g p.space = (.ok it, space)) :
    ∃ s listing, space.session? g = some s ∧ q.listing s = .ok listing ∧
      (q.list g p.space).1 = .ok listing ∧ it.Lists space listing ∧
      ∀ view, it.filter = some view → view.store = g.token := by
  have henter := (Query.enter_of_iterator hcall).2
  obtain ⟨shared, _, _, hshared, _⟩ := exists_granted_of_enter henter
  have hs := session?_of_shared? hshared
  have hsettled := h.remains.settled hs
  obtain ⟨order, hconsistent⟩ := hsettled.consistent
  obtain ⟨guard, _, hbegins⟩ := Query.exists_of_iterator hcall hs
  obtain ⟨listing, hlisting, hlist, hlists⟩ := Query.lists_of_iterator hconsistent hs hcall
  have hs' : space.session? g = some ⟨p.space.catalog, shared.store⟩ := by
    rw [Query.session?_of_iterator hcall, hs]
  exact ⟨_, listing, hs', hlisting, hlist, hlists,
    fun view hview => (hbegins.store_eq hview).trans hsettled.token⟩

/-- A program that holds the graph for reading, and not for writing, cannot change it. So an iterator
that it opens without a write hold comes to what the same query lists at that moment, whatever calls
the program makes, as long as the guard of the iterator owns its hold. -/
theorem Program.InRange.frozen_and_answers_eq (h : p.InRange g) (hbalanced : Lock.Balanced p.log)
    (hfew : Lock.FewRestarts p.log) (hwrites : ¬p.space.Writes g) :
    (p.space.Reads g ∨ (∃ number, p.Owns number) → p.space.Frozen g) ∧
    (p.space.HasRoom g → ∀ (q : Query) number it space, p.Unused (some number) →
      q.iterator g p.space = (.ok it, space) →
      ∃ s listing, space.session? g = some s ∧ q.listing s = .ok listing ∧
        (q.list g p.space).1 = .ok listing ∧ ∀ p' it' answers,
        Iterates g (p.take space .read (some number) it.guard.hold) it p' it' answers →
        Lock.Balanced p'.log → Lock.FewRestarts p'.log → p'.Owns number →
        p'.space.Frozen g ∧ answers = (List.range answers.length).map (listing[·]?)) := by
  refine ⟨fun hreads => ?_, fun hroom q number it space hnew hcall => ?_⟩
  · have hreads' : p.space.Reads g := by
      rcases hreads with hreads | ⟨number, howns⟩
      · exact hreads
      · exact h.reads hbalanced hfew howns
    exact (h.reading hreads' hwrites).frozen
  · obtain ⟨s, listing, hs, hlisting, hlist, hlists, hview⟩ := h.exists_listing hcall
    have hstep : p.Step g (p.take space .read (some number) it.guard.hold) :=
      .begun q number it space hnew hcall
    have hp := InRange.step _ _ h hroom hstep
    have hwrites' : ¬space.Writes g := by
      intro hwrites'
      rcases (h.turn hroom hstep).writes_cases h hwrites' with hwrote | ⟨_, guard, htook⟩
      · exact hwrites hwrote
      · cases htook
    refine ⟨s, listing, hs, hlisting, hlist, fun p' it' answers hiterates hbalanced' hfew' howns => ?_⟩
    have hlisted := hiterates.asListed hp List.mem_cons_self hwrites' hs
      (Query.enter_of_iterator hcall).1 hview hlists hbalanced' hfew' howns
    have hp' := hiterates.inRange hp
    have hreading := hp'.reading (hp'.reads hbalanced' hfew' howns) hlisted.not_writes
    exact ⟨hreading.frozen, hlisted.answers_eq⟩

/-! ### A walk over one node -/

theorem canHold_of_free {lock : Lock} (h : space.lock? g = some lock) (hexclusive : lock.Exclusive)
    (hfree : lock.Free) : space.CanHold g := by
  refine ⟨fun l hl => ?_, fun l hl => ?_⟩
  · rw [h, Option.some.injEq] at hl
    exact hl ▸ hexclusive
  · rw [h, Option.some.injEq] at hl
    exact hl ▸ hfree.hasRoom

theorem canHold_of_open : (Graph.open_ {} {}).2.CanHold ⟨0⟩ :=
  canHold_of_free (show (Graph.open_ {} {}).2.lock? ⟨0⟩ = some {} from rfl) .free Lock.free_empty

theorem hasRoom_enter_read {lock : Lock} (h : space.lock? g = some lock)
    (henabled : lock.enabled = true) (hmay : lock.mayRead caller = true) (hfree : lock.Free) :
    (g.enter .read space).2.HasRoom g := by
  intro l hl mode
  rw [lock?_enter_read h henabled hmay, Option.some.injEq] at hl
  subst hl
  cases mode with
  | read =>
    change (lock.addReadHold caller).readHolds caller + 1 ≠ 0
    rw [Lock.readHolds_addReadHold, hfree.readHolds_eq, if_pos rfl]
    decide
  | write => exact hfree.hasRoom .write

def withHub : Program where
  space := (Graph.addNode ⟨0⟩ hub (Graph.open_ {} {}).2).2

theorem inRange_withHub : withHub.InRange ⟨0⟩ :=
  .step _ _ (.step _ _ .start nofun (.opened {} fun _ => rfl)) canHold_of_open.hasRoom
    (.called ⟨0⟩ (.addNode hub))

theorem lock?_withHub : withHub.space.lock? ⟨0⟩ = some {} :=
  (lockKept_call canHold_of_open ⟨0⟩ (.addNode hub)).lock

theorem session?_addNode_hub : ((Graph.addNode ⟨0⟩ hub (Graph.open_ {} {}).2).1 = .ok true) ∧
    withHub.space.session? ⟨0⟩ = some lone := by
  have hopened : (Graph.open_ {} {}).2.shared? ⟨0⟩ = some { lock := {}, store := .empty 0 {} } := rfl
  obtain ⟨hanswer, hsession⟩ := during_session_of_granted hopened
    (Lock.free_empty.enter_eq rfl) (Command.addNode hub).act
  exact ⟨hanswer.trans (congrArg Prod.fst addNode_hub),
    hsession.trans (congrArg some perform_addNode_hub)⟩

theorem next_lone (guard : Guard) (h : space.session? guard.graph = some lone) :
    (Iterator.nodes { guard }).next space =
      (some (.node hub), .nodes { guard, position := 1, current := some hub }) ∧
    ((Iterator.nodes { guard, position := 1, current := some hub }).next space).1 = none := by
  have hfound : lone.store.nodes.arena.nextLive? 0 = some 0 := by
    rw [Arena.nextLive?]
    rfl
  have hover : lone.store.nodes.arena.nextLive? 1 = none := by
    rw [Arena.nextLive?]
    rfl
  constructor
  · rw [Iterator.next_nodes, NodeIterator.next_of_session? h, NodeIterator.seek_of_nextLive? hfound]
    rfl
  · rw [Iterator.next_nodes, NodeIterator.next_of_session? h,
      NodeIterator.seek_of_nextLive?_eq_none hover]
    rfl

/-- An iterator over the nodes comes to the one that was listed, though the program tries to clear the
graph. -/
theorem frozen_and_answers_eq_withHub : withHub.InRange ⟨0⟩ ∧ Lock.Balanced withHub.log ∧
    Lock.FewRestarts withHub.log ∧ ¬withHub.space.Writes ⟨0⟩ ∧ withHub.space.HasRoom ⟨0⟩ ∧
    ∃ it space p' it', Query.nodes.iterator ⟨0⟩ withHub.space = (.ok it, space) ∧
      (Query.nodes.list ⟨0⟩ withHub.space).1 = .ok [.node hub] ∧
      Program.Iterates ⟨0⟩ (withHub.take space .read (some 0) it.guard.hold) it p' it'
        [some (.node hub), none] ∧
      p'.space.Frozen ⟨0⟩ := by
  have hbalanced : Lock.Balanced [.took caller .read (some 0)] :=
    Lock.balanced_of_not_mem fun t hmem => nomatch List.mem_singleton.mp hmem
  have hfew : Lock.FewRestarts [.took caller .read (some 0)] := fun t =>
    Nat.lt_of_le_of_lt List.count_le_length (by decide)
  have hcan : withHub.space.CanHold ⟨0⟩ := canHold_of_open.of_lock lock?_withHub
  have hwrites : ¬withHub.space.Writes ⟨0⟩ := by
    rintro ⟨lock, hlock, hwriter⟩
    rw [lock?_withHub, Option.some.injEq] at hlock
    subst hlock
    cases hwriter
  have hcall := Query.iterator_nodes (enter_read_eq lock?_withHub rfl rfl)
  have hroom := hasRoom_enter_read lock?_withHub rfl rfl Lock.free_empty
  generalize ({} : Lock).epoch caller = epoch at hcall
  generalize ((⟨0⟩ : Graph).enter .read withHub.space).2 = space at hcall hroom
  obtain ⟨_, listing, _, _, hlist, hall⟩ := (inRange_withHub.frozen_and_answers_eq hbalanced.of_cons
    hfew.of_cons hwrites).2 hcan.hasRoom .nodes 0 _ space nofun hcall
  have hs : space.session? ⟨0⟩ = some lone := by
    rw [Query.session?_of_iterator hcall, session?_addNode_hub.2]
  obtain ⟨hfirst, hover⟩ := next_lone ⟨⟨0⟩, .read epoch⟩ hs
  have howns : (withHub.take space .read (some 0) (.read epoch)).Owns 0 :=
    (withHub.threads {}).owns_take { lock := {} } caller 0 epoch
  -- the attempt comes between the two questions, and is refused
  have hasked : Program.Iterates ⟨0⟩ (withHub.take space .read (some 0) (.read epoch))
      (.nodes { guard := ⟨⟨0⟩, .read epoch⟩ }) _ _ _ := .asked _ _ _ .begun
  obtain ⟨fault, hrefused, _⟩ := (hall _ _ _ hasked hbalanced hfew howns).1.call .clear rfl
  have hended := Program.Iterates.asked _ _ _ (.called _ _ _ _ hasked hroom (.called ⟨0⟩ .clear))
  rw [hrefused] at hended
  simp only [Program.take, hfirst, hover] at hended
  obtain ⟨hfrozen, hanswers⟩ := hall _ _ _ hended hbalanced hfew howns
  have hlisting : listing = [.node hub] := by
    have hboth : [some (.node hub), none] = [listing[0]?, listing[1]?] := hanswers
    cases listing with
    | nil => cases hboth
    | cons item rest =>
      cases rest with
      | nil =>
        cases hboth
        rfl
      | cons => cases hboth
  rw [hlisting] at hlist
  exact ⟨inRange_withHub, hbalanced.of_cons, hfew.of_cons, hwrites, hcan.hasRoom, _, space, _, _,
    hcall, hlist, hended, hfrozen⟩

/-! ### One hold too many -/

def Lock.recorded (holds : UInt32) : Lock := { readers := .ofList [(caller, holds)] }

theorem Lock.getElem?_recorded (holds : UInt32) (t : ThreadId) :
    (recorded holds).readers[t]? = if caller = t then some holds else none := by
  rw [recorded, Std.ExtHashMap.ofList_singleton, Std.ExtHashMap.getElem?_insert,
    Std.ExtHashMap.getElem?_empty]
  simp

theorem Lock.addReadHold_recorded (holds : UInt32) :
    (recorded holds).addReadHold caller = recorded (holds + 1) := by
  have hholds : (recorded holds).readHolds caller = holds := by
    rw [readHolds_eq, getElem?_recorded, if_pos rfl, Option.getD_some]
  have hreaders : ((recorded holds).addReadHold caller).readers = (recorded (holds + 1)).readers := by
    refine Std.ExtHashMap.ext_getElem? fun t => ?_
    rw [getElem?_recorded, addReadHold, hholds, Std.ExtHashMap.getElem?_insert, getElem?_recorded]
    by_cases ht : caller = t <;> simp [ht]
  exact congrArg (fun readers => ({ readers } : Lock)) hreaders

theorem Lock.addReadHold_empty : ({} : Lock).addReadHold caller = recorded 1 := by
  have hreaders : (({} : Lock).addReadHold caller).readers = (recorded 1).readers := by
    refine Std.ExtHashMap.ext_getElem? fun t => ?_
    rw [getElem?_recorded, addReadHold, free_empty.readHolds_eq, Std.ExtHashMap.getElem?_insert,
      Std.ExtHashMap.getElem?_empty]
    by_cases ht : caller = t <;> simp [ht]
  exact congrArg (fun readers => ({ readers } : Lock)) hreaders

theorem Lock.leaveRead_recorded_zero : ((recorded 0).leaveRead caller).lock = {} := by
  have hreaders : (recorded 0).readers.erase caller = ∅ := by
    refine Std.ExtHashMap.ext_getElem? fun t => ?_
    rw [Std.ExtHashMap.getElem?_erase, getElem?_recorded, Std.ExtHashMap.getElem?_empty]
    by_cases ht : caller = t <;> simp [ht]
  rw [leaveRead_eq rfl, dropReadHold, getElem?_recorded, if_pos rfl]
  exact congrArg (fun readers => ({ readers } : Lock)) hreaders

def locked (l : Lock) : GraphSpace :=
  (Graph.open_ {} {}).2.put ⟨0⟩ { lock := l, store := .empty 0 {} }

theorem shared?_locked (l : Lock) :
    (locked l).shared? ⟨0⟩ = some { lock := l, store := .empty 0 {} } := rfl

theorem enter_locked {l l' : Lock} {epoch : UInt64}
    (h : l.enter caller .read = .granted epoch l') :
    (⟨0⟩ : Graph).enter .read (locked l) = (.ok (.read epoch), locked l') := by
  rw [enter_apply, shared?_locked]
  simp only [h]
  rfl

theorem enter_recorded (holds : UInt32) : (⟨0⟩ : Graph).enter .read (locked (.recorded holds)) =
    (.ok (.read 0), locked (.recorded (holds + 1))) := by
  have hgranted : (Lock.recorded holds).enter caller .read =
      .granted 0 (.recorded (holds + 1)) := by
    rw [Lock.enter_of_mayRead rfl rfl, Lock.addReadHold_recorded]
    exact congrArg (Lock.Entry.granted · _) Lock.Threads.epoch_unused
  exact enter_locked hgranted

/-- A program has opened an iterator over an empty graph and has locked the graph for reading so many
times more. -/
def holding (reads : Nat) : Program where
  space := locked (.recorded (.ofNat (reads + 1)))
  guards := [⟨0, caller, .read 0⟩]
  log := List.replicate reads (.took caller .read none) ++ [.took caller .read (some 0)]

def unlocked (reads : Nat) : Program where
  space := locked {}
  guards := [⟨0, caller, .read 0⟩]
  log := .gave caller .read :: (holding reads).log

def openIterator : Iterator := .nodes { guard := ⟨⟨0⟩, .read 0⟩ }

theorem iterator_locked :
    Query.nodes.iterator ⟨0⟩ (locked {}) = (.ok openIterator, (holding 0).space) := by
  have hgranted : ({} : Lock).enter caller .read = .granted 0 (.recorded 1) := by
    rw [Lock.enter_of_mayRead rfl rfl, Lock.addReadHold_empty]
    exact congrArg (Lock.Entry.granted · _) Lock.Threads.epoch_unused
  exact Query.iterator_nodes (enter_locked hgranted)

theorem reachable_holding (reads : Nat) : (holding reads).Reachable ⟨0⟩ := by
  induction reads with
  | zero =>
    have hopened : Program.Reachable ⟨0⟩ { space := locked {} } :=
      .step _ _ .start (.opened {} fun _ => rfl)
    exact .step _ _ hopened (.begun .nodes 0 openIterator _ nofun iterator_locked)
  | succ reads ih =>
    have htook := Program.Reachable.step _ _ ih
      (.entered .read none _ _ nofun (enter_recorded (.ofNat (reads + 1))))
    have hholds : UInt32.ofNat (reads + 1 + 1) = .ofNat (reads + 1) + 1 := UInt32.ofNat_add _ _
    rw [← hholds] at htook
    exact htook

theorem reachable_unlocked {reads : Nat} (hwrap : UInt32.ofNat (reads + 1) = 0) :
    (unlocked reads).Reachable ⟨0⟩ := by
  refine .step _ _ (reachable_holding reads) (.gave .read (locked {}) ?_)
  change (⟨0⟩ : Graph).leave (·.leaveRead caller) (locked (.recorded (.ofNat (reads + 1)))) = _
  rw [leave_apply, shared?_locked, hwrap]
  simp only [Lock.leaveRead_recorded_zero]
  rfl

theorem not_gave_mem_holding (reads : Nat) (t : ThreadId) (what : Lock.Unlock) :
    .gave t what ∉ (holding reads).log := by
  intro hmem
  rcases List.mem_append.mp hmem with hmem | hmem
  · cases List.eq_of_mem_replicate hmem
  · cases List.mem_singleton.mp hmem

theorem log_holding_succ (reads : Nat) :
    (holding (reads + 1)).log = .took caller .read none :: (holding reads).log := rfl

theorem readsTaken_holding (reads : Nat) :
    Lock.readsTaken (holding reads).log caller = reads := by
  induction reads with
  | zero => rfl
  | succ reads ih => rw [log_holding_succ, Lock.readsTaken_took, ih, if_pos ⟨rfl, rfl, rfl⟩]

theorem balanced_unlocked {reads : Nat} (hreads : 0 < reads) :
    Lock.Balanced (unlocked reads).log := by
  have hbalanced : Lock.Balanced (holding reads).log :=
    Lock.balanced_of_not_mem fun t => not_gave_mem_holding reads t .read
  refine hbalanced.cons fun t => ?_
  have hread : ¬(t = caller ∧ Lock.Unlock.read = .allReads) := fun h => nomatch h.2
  have hgiven := Lock.readsGiven_eq_zero (not_gave_mem_holding reads t .read)
  rw [Lock.readsGiven_gave hread, Lock.readsTaken_gave hread, hgiven]
  split
  · next hcaller =>
    rw [hcaller.1, readsTaken_holding]
    omega
  · omega

theorem not_allReads_mem_unlocked (reads : Nat) (t : ThreadId) :
    .gave t .allReads ∉ (unlocked reads).log := by
  intro hmem
  rcases List.mem_cons.mp hmem with heq | hmem
  · cases heq
  · exact not_gave_mem_holding reads t .allReads hmem

theorem fewRestarts_unlocked (reads : Nat) : Lock.FewRestarts (unlocked reads).log := by
  intro t
  rw [Lock.restarts, List.count_eq_zero.mpr (not_allReads_mem_unlocked reads t)]
  decide

theorem owns_unlocked (reads : Nat) : (unlocked reads).Owns 0 := by
  refine ⟨⟨0, List.mem_singleton_self _⟩, ?_⟩
  refine Lock.mem_since (not_allReads_mem_unlocked reads caller) ?_ rfl
  exact List.mem_cons_of_mem _ (List.mem_append_right _ (List.mem_singleton_self _))

theorem locked_empty : locked {} = (Graph.open_ {} {}).2 := put_self rfl

theorem list_locked : (Query.nodes.list ⟨0⟩ (locked {})).1 = .ok [] := by
  have hopened : Program.InRange ⟨0⟩ { space := locked {} } :=
    .step _ _ .start nofun (.opened {} fun _ => rfl)
  obtain ⟨s, listing, hs, hlisting, hlist, _⟩ := hopened.exists_listing iterator_locked
  cases hs
  rw [hlist, ← hlisting]
  rfl

/-- Under an iterator whose guard owns its hold the graph is written, and the iterator comes to a node
that was not listed when it was opened. -/
theorem not_frozen_unlocked :
    Query.nodes.iterator ⟨0⟩ (locked {}) = (.ok openIterator, (holding 0).space) ∧
    (Query.nodes.list ⟨0⟩ (locked {})).1 = .ok [] ∧
    (unlocked 4294967295).Reachable ⟨0⟩ ∧ Lock.Balanced (unlocked 4294967295).log ∧
    Lock.FewRestarts (unlocked 4294967295).log ∧ ¬(unlocked 4294967295).space.Writes ⟨0⟩ ∧
    (unlocked 4294967295).Owns 0 ∧
    (Graph.addNode ⟨0⟩ hub (unlocked 4294967295).space).1 = .ok true ∧
    (openIterator.next (Graph.addNode ⟨0⟩ hub (unlocked 4294967295).space).2).1 =
      some (.node hub) ∧
    ¬(unlocked 4294967295).space.Frozen ⟨0⟩ := by
  have hspace : (unlocked 4294967295).space = (Graph.open_ {} {}).2 := locked_empty
  obtain ⟨hadded, hs⟩ := session?_addNode_hub
  have hwrites : ¬(unlocked 4294967295).space.Writes ⟨0⟩ := by
    rintro ⟨lock, hlock, hwriter⟩
    rw [hspace] at hlock
    cases hlock
    cases hwriter
  refine ⟨iterator_locked, list_locked, reachable_unlocked (by decide), balanced_unlocked (by decide),
    fewRestarts_unlocked _, hwrites, owns_unlocked _, ?_⟩
  rw [hspace]
  refine ⟨hadded, congrArg Prod.fst (next_lone ⟨⟨0⟩, .read 0⟩ hs).1, fun hfrozen => ?_⟩
  obtain ⟨fault, hrefused, _⟩ := hfrozen.call (.addNode hub) rfl
  rw [show (Graph.addNode ⟨0⟩ hub (Graph.open_ {} {}).2) = _ from hrefused] at hadded
  cases hadded

end PropertyGraph

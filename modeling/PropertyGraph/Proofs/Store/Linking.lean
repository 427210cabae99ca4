import PropertyGraph.Proofs.Store.Sound

/-!
# Edges in and out of a sound store

An edge that comes is hooked in for one phase after the other, perhaps paired, and entered in the
indexes; an edge that goes is hooked out, perhaps unpaired, and taken out of the indexes. Between
these steps only some parts of the store agree with the list of its edges, so each part is followed
through the steps by itself.
-/

namespace PropertyGraph.Store

variable {s : Store} {slot reverse i j n : Nat} {p : Phase} {e f x : EdgeSlot} {order l : List Nat}
  {paired : Bool} {arena : Arena EdgeSlot}

/-! ### Marking a pair changes no chain and no degree -/

theorem Chained.setMutual (h : s.Chained p order) (hne : e.source ≠ e.target) :
    (s.setMutual slot reverse e paired).Chained p order := by
  refine h.congr (fun i _ => ?_) fun n N' hN' => ?_
  · rw [edgeGet?_setMutual, Option.map_map]
    congr 1
    funext x
    simp only [Function.comp]
    split <;> rfl
  · rw [nodeGet?_setMutual hne, Option.map_eq_some_iff] at hN'
    obtain ⟨N, hN, rfl⟩ := hN'
    refine ⟨N, hN, ?_⟩
    split <;> rfl

theorem Degreed.setMutual (h : s.Degreed p order) (hne : e.source ≠ e.target) :
    (s.setMutual slot reverse e paired).Degreed p order := by
  intro n N' hN'
  rw [nodeGet?_setMutual hne, Option.map_eq_some_iff] at hN'
  obtain ⟨N, hN, rfl⟩ := hN'
  rw [tally_setMutual fun _ _ => rfl, ← h n N hN]
  split <;> rfl

/-! ### What hooking leaves alone -/

theorem Indexed.hook (h : s.Indexed order) : (s.hook slot e p).Indexed order :=
  h.congr (fun _ _ => plain?_hook) (by rw [hook_eq]) (by rw [hook_eq]) (by rw [hook_eq])

theorem Indexed.unhook (h : s.Indexed order) : (s.unhook e p).Indexed order :=
  h.congr (fun _ _ => plain?_unhook) (by rw [unhook_eq]) (by rw [unhook_eq]) (by rw [unhook_eq])

theorem Mutual.hook (h : s.Mutual order) : (s.hook slot e p).Mutual order := by
  refine h.congr (fun _ _ => plain?_hook) (by rw [hook_eq]) fun n N' hN' => ?_
  rw [nodeGet?_hook, Option.map_eq_some_iff] at hN'
  obtain ⟨N, hN, rfl⟩ := hN'
  refine ⟨N, hN, ?_⟩
  split <;> rfl

theorem Mutual.unhook (h : s.Mutual order) : (s.unhook e p).Mutual order := by
  refine h.congr (fun _ _ => plain?_unhook) (by rw [unhook_eq]) fun n N' hN' => ?_
  rw [nodeGet?_unhook, Option.map_eq_some_iff] at hN'
  obtain ⟨N, hN, rfl⟩ := hN'
  refine ⟨N, hN, ?_⟩
  split
  · split <;> rfl
  · rfl

/-! ### An edge comes -/

section Coming

theorem chained_hook_hook (hchained : ∀ p, s.Chained p order) (hnodup : (slot :: order).Nodup)
    (hslot : s.edges.get? slot = some e) (hfresh : ∀ p, (e.links.get p).prev = none) :
    ∀ p, ((s.hook slot e .outgoing).hook slot e .incoming).Chained p (slot :: order)
  | .outgoing =>
    ((hchained .outgoing).hook hnodup hslot rfl (hfresh .outgoing)).hook_of_ne (by decide)
  | .incoming => by
    have hslot' : (s.hook slot e .outgoing).edges.get? slot = _ := edgeGet?_hook
    rw [hslot, Option.map_some] at hslot'
    refine ((hchained .incoming).hook_of_ne (by decide)).hook hnodup hslot' rfl ?_
    rw [EdgeSlot.relink, Sides.get_modify_of_ne (by decide)]
    exact hfresh .incoming

theorem degreed_hook_hook (hdegreed : ∀ p, s.Degreed p order) (hslot : s.plain? slot = some x)
    (hends : x.ends = e.ends) :
    ∀ p, ((s.hook slot e .outgoing).hook slot e .incoming).Degreed p (slot :: order)
  | .outgoing => ((hdegreed .outgoing).hook hslot hends).hook_of_ne (by decide)
  | .incoming =>
    ((hdegreed .incoming).hook_of_ne (by decide)).hook (plain?_hook.trans hslot) hends

theorem sound_of_register (hanchored : s.Anchored (slot :: order))
    (hchained : ∀ p, s.Chained p (slot :: order)) (hdegreed : ∀ p, s.Degreed p (slot :: order))
    (hindexed : s.Indexed order) (hmutual : s.Mutual (slot :: order))
    (hslot : s.plain? slot = some x) (hends : x.ends = e.ends) (hlabel : x.label = e.label)
    (hfree : s.edges.find? e.source e.target e.label = none) :
    ({ s with edges := s.edges.register slot e } : Store).Sound (slot :: order) :=
  ⟨⟨hanchored.nodes_valid, hanchored.edges_valid, hanchored.labels_sound, hanchored.nodup,
    hanchored.mem_iff, hanchored.node_of_end, hanchored.label_of⟩, hchained, hdegreed,
    hindexed.register hslot hends hlabel hfree,
    hmutual.congr (fun _ _ => rfl) rfl fun _ N hN => ⟨N, hN, rfl⟩⟩

/-- Linking an edge that has a slot, but is on no chain and in no index yet. -/
theorem sound_link (hanchored : s.Anchored (slot :: order)) (hchained : ∀ p, s.Chained p order)
    (hdegreed : ∀ p, s.Degreed p order) (hindexed : s.Indexed order) (hmutual : s.Mutual order)
    (hslot : s.edges.get? slot = some e) (hfresh : ∀ p, (e.links.get p).prev = none)
    (hplain : e.isMutual = false) (hparallel : s.edges.find? e.source e.target e.label = none)
    (hreverse : ∀ j f, s.reverse? e = some j → s.plain? j = some f →
      e.edge.directed = true ∧ f.edge.directed = true) :
    (s.link slot e).Sound (slot :: order) := by
  have hnodup := hanchored.nodup
  obtain ⟨hnew, hnodup'⟩ := List.nodup_cons.mp hnodup
  have hchained' := chained_hook_hook hchained hnodup hslot hfresh
  have hdegreed' := degreed_hook_hook hdegreed (Sound.plain?_eq_some hslot) (e := e) rfl
  have hanchored' : ((s.hook slot e .outgoing).hook slot e .incoming).Anchored (slot :: order) :=
    hanchored.hook.hook
  have hindexed' : ((s.hook slot e .outgoing).hook slot e .incoming).Indexed order :=
    hindexed.hook.hook
  have hmutual' : ((s.hook slot e .outgoing).hook slot e .incoming).Mutual order :=
    hmutual.hook.hook
  have hplain' : ∀ i, ((s.hook slot e .outgoing).hook slot e .incoming).plain? i = s.plain? i :=
    fun i => by rw [plain?_hook, plain?_hook]
  have hreverse' : ((s.hook slot e .outgoing).hook slot e .incoming).reverse? e = s.reverse? e := by
    rw [reverse?_hook, reverse?_hook]
  have hparallel' : ((s.hook slot e .outgoing).hook slot e .incoming).edges.find? e.source e.target
      e.label = none := by
    rw [hook_eq, hook_eq]
    exact hparallel
  dsimp only [link]
  generalize (s.hook slot e .outgoing).hook slot e .incoming = t at *
  have hslot' : t.plain? slot = some e.unlinked := (hplain' slot).trans (Sound.plain?_eq_some hslot)
  rw [hreverse']
  cases hj : s.reverse? e with
  | none =>
    have halone := hindexed'.reverse?_eq_none_iff.mp (hreverse'.trans hj)
    exact sound_of_register hanchored' hchained' hdegreed' hindexed'
      (hmutual'.cons hslot' hplain halone) hslot' rfl rfl hparallel'
  | some j =>
    obtain ⟨hjmem, f, hf, hreverses⟩ := hindexed'.reverse?_eq_some_iff.mp (hreverse'.trans hj)
    obtain ⟨hdirected, hdirected'⟩ := hreverse j f hj ((hplain' j).symm.trans hf)
    have hne : e.source ≠ e.target := hreverses.2.2.2
    simp only [if_pos hdirected]
    exact sound_of_register hanchored'.setMutual (fun p => (hchained' p).setMutual hne)
      (fun p => (hdegreed' p).setMutual hne) hindexed'.setMutual
      (hmutual'.pair hindexed' hnodup' hnew hslot' hdirected hparallel' hjmem hf hreverses hdirected')
      (plain?_setMutual_self hslot') rfl rfl hparallel'

theorem Sound.of_not_conflict (h : s.Sound order)
    (hlabel : s.labels.idOf? e.edge.label = some e.label ∨
      ∀ i x, s.plain? i = some x → x.label ≠ e.label)
    (hnone : (s.labels.idOf? e.edge.label).bind
      (s.edges.conflict? e.source e.target · e.edge.directed) = none) :
    s.edges.find? e.source e.target e.label = none ∧
      ∀ j f, s.reverse? e = some j → s.plain? j = some f →
        e.edge.directed = true ∧ f.edge.directed = true := by
  rcases hlabel with hid | hnew
  · rw [hid, Option.bind_some, EdgeTable.conflict?] at hnone
    split at hnone
    · cases hnone
    · next hparallel =>
      refine ⟨by simpa using hparallel, fun j f hj hf => ?_⟩
      obtain ⟨g, hg, rfl⟩ := Sound.exists_get?_of_plain? hf
      split at hnone
      · next hloop =>
        rw [reverse?, EdgeSlot.isLoop, hloop, beq_self_eq_true, if_pos rfl] at hj
        cases hj
      · next hloop =>
        rw [reverse?, EdgeSlot.isLoop, beq_false_of_ne hloop, if_neg Bool.false_ne_true] at hj
        rw [hj, Option.bind_some, hg] at hnone
        by_cases hdirected : e.edge.directed && g.edge.directed
        · rw [Bool.and_eq_true] at hdirected
          exact hdirected
        · simp only [if_neg hdirected] at hnone
          cases hnone
  · constructor
    · rw [Option.eq_none_iff_forall_ne_some]
      intro i hi
      obtain ⟨_, x, hx, _, _, hlabel⟩ := (h.indexed.find?_iff _ _ _ _).mp hi
      exact hnew i x hx hlabel
    · intro j f hj hf
      obtain ⟨_, g, hg, hreverses⟩ := h.indexed.reverse?_eq_some_iff.mp hj
      exact absurd hreverses.2.2.1 (hnew j g hg)

theorem Sound.addEdge (h : s.Sound order) (hvalid : arena.Valid) (hfree : s.edges.get? slot = none)
    (hget : ∀ i, arena.get? i = if i = slot then some e else s.edges.get? i)
    (hlinks : e.links = .both {}) (hplain : e.isMutual = false)
    (hends : ∀ p, s.node? (e.ends.get p) = some (e.edge.node p.role))
    (hlabel : s.labels.labels.get? e.label = some e.edge.label)
    (hparallel : s.edges.find? e.source e.target e.label = none)
    (hreverse : ∀ j f, s.reverse? e = some j → s.plain? j = some f →
      e.edge.directed = true ∧ f.edge.directed = true) :
    (({ s with edges := { s.edges with arena } } : Store).link slot e).Sound (slot :: order) := by
  have hunlinked : e.unlinked = e := by rw [EdgeSlot.unlinked, ← hlinks]
  have hfresh : slot ∉ order := by
    intro hmem
    rw [h.mem_iff, plain?, hfree] at hmem
    cases hmem
  have hplains : ∀ i, ({ s with edges := { s.edges with arena } } : Store).plain? i =
      if i = slot then some e else s.plain? i := by
    intro i
    change (arena.get? i).map EdgeSlot.unlinked = _
    rw [hget]
    split
    · rw [Option.map_some, hunlinked]
    · rfl
  have hold : ∀ i ∈ order, ({ s with edges := { s.edges with arena } } : Store).plain? i =
      s.plain? i := by
    intro i hi
    rw [hplains, if_neg fun heq : i = slot => hfresh (heq ▸ hi)]
  have hslot : arena.get? slot = some e := by rw [hget, if_pos rfl]
  have hanchored : ({ s with edges := { s.edges with arena } } : Store).Anchored (slot :: order) := by
    constructor
    case nodes_valid => exact h.nodes_valid
    case edges_valid => exact hvalid
    case labels_sound => exact h.labels_sound
    case nodup => exact List.nodup_cons.mpr ⟨hfresh, h.nodup⟩
    case mem_iff =>
      intro i
      rw [hplains, List.mem_cons, h.mem_iff]
      by_cases hi : i = slot <;> simp [hi]
    case node_of_end =>
      intro i x p hx
      rw [hplains] at hx
      split at hx
      · cases hx
        exact hends p
      · exact h.node_of_end i x p hx
    case label_of =>
      intro i x hx
      rw [hplains] at hx
      split at hx
      · cases hx
        exact hlabel
      · exact h.label_of i x hx
  refine sound_link hanchored (fun p => (h.chained p).congr (fun i hi => ?_) fun _ N hN => ⟨N, hN, rfl⟩)
    (fun p => (h.degreed p).congr hold fun _ N hN => ⟨N, hN, rfl⟩) (h.indexed.congr hold rfl rfl rfl)
    (h.paired.congr hold rfl fun _ N hN => ⟨N, hN, rfl⟩) hslot (fun p => ?_) hplain hparallel
    fun j f hj hf => ?_
  · change (arena.get? i).map _ = _
    rw [hget, if_neg fun heq : i = slot => hfresh (heq ▸ hi)]
  · rw [hlinks, Sides.get_both]
  · refine hreverse j f hj ?_
    have hjmem := (h.indexed.reverse?_eq_some_iff.mp hj).1
    rwa [hold j hjmem] at hf

end Coming

/-! ### An edge goes -/

section Going

variable (h : s.Sound order) (hslot : s.edges.get? slot = some e)
include h hslot

theorem Sound.mem_of_get? : slot ∈ order := by
  rw [h.mem_iff, Sound.plain?_eq_some hslot]
  rfl

theorem Sound.isSome_end (p : Phase) : (s.nodes.get? (e.ends.get p)).isSome := by
  have hend := h.node_of_end slot _ p (Sound.plain?_eq_some hslot)
  rw [node?, Option.map_eq_some_iff] at hend
  obtain ⟨N, hN, _⟩ := hend
  exact Option.isSome_iff_exists.mpr ⟨N, hN⟩

theorem Sound.chained_unhook_unhook :
    ∀ p, ((s.unhook e .outgoing).unhook e .incoming).Chained p (order.erase slot)
  | .outgoing =>
    ((h.chained .outgoing).unhook h.nodup (h.mem_of_get? hslot) (h.isSome_end hslot .outgoing)
      hslot rfl).unhook_of_ne (by decide)
  | .incoming => by
    have hslot' := edgeGet?_unhook (s := s) (i := slot) (e := e) (p := .outgoing)
    rw [hslot, Option.map_some] at hslot'
    refine ((h.chained .incoming).unhook_of_ne (by decide)).unhook h.nodup (h.mem_of_get? hslot) ?_
      hslot' (EdgeSlot.shape_relink_of_ne (by decide))
    have hend := h.isSome_end hslot .incoming
    rwa [nodeGet?_unhook, Option.isSome_map]

theorem Sound.degreed_unhook_unhook :
    ∀ p, ((s.unhook e .outgoing).unhook e .incoming).Degreed p (order.erase slot) := by
  have hmem := h.mem_of_get? hslot
  have hplain := Sound.plain?_eq_some hslot
  intro p
  cases p with
  | outgoing =>
    exact ((h.degreed .outgoing).unhook (e := e) hmem hplain rfl).unhook_of_ne
      (p := .incoming) (by decide)
  | incoming =>
    exact ((h.degreed .incoming).unhook_of_ne (p := .outgoing) (by decide)).unhook (e := e) hmem
      (plain?_unhook.trans hplain) rfl

omit h hslot in
/-- Freeing the slot of an edge that is on no chain any more, and taking it out of the indexes. -/
theorem sound_of_remove (hanchored : s.Anchored order) (hmem : slot ∈ order)
    (hchained : ∀ p, s.Chained p (order.erase slot))
    (hdegreed : ∀ p, s.Degreed p (order.erase slot)) (hindexed : s.Indexed order)
    (hmutual : s.Mutual (order.erase slot)) (hslot : s.plain? slot = some x) (hends : x.ends = e.ends)
    (hlabel : x.label = e.label) :
    ({ s with edges := s.edges.remove slot e } : Store).Sound (order.erase slot) := by
  have hvalid := hanchored.edges_valid
  have hnodup := hanchored.nodup
  have hrest : ∀ i ∈ order.erase slot,
      ({ s with edges := s.edges.remove slot e } : Store).plain? i = s.plain? i :=
    fun i hi => plain?_remove hvalid (hnodup.mem_erase_iff.mp hi).1
  have hgone : ({ s with edges := s.edges.remove slot e } : Store).plain? slot = none := by
    rw [plain?, edgeGet?_remove hvalid, if_pos rfl, Option.map_none]
  have hback : ∀ i y, ({ s with edges := s.edges.remove slot e } : Store).plain? i = some y →
      s.plain? i = some y := by
    intro i y hy
    by_cases hi : i = slot
    · rw [hi, hgone] at hy
      cases hy
    · rwa [plain?_remove hvalid hi] at hy
  refine ⟨⟨hanchored.nodes_valid, hvalid.free slot, hanchored.labels_sound, hnodup.erase slot, ?_,
    fun i y p hy => hanchored.node_of_end i y p (hback i y hy),
    fun i y hy => hanchored.label_of i y (hback i y hy)⟩,
    fun p => (hchained p).congr (fun i hi => ?_) fun _ N hN => ⟨N, hN, rfl⟩,
    fun p => (hdegreed p).congr hrest fun _ N hN => ⟨N, hN, rfl⟩,
    hindexed.remove hvalid hnodup hmem hslot hends hlabel,
    hmutual.congr hrest rfl fun _ N hN => ⟨N, hN, rfl⟩⟩
  · intro i
    rw [hnodup.mem_erase_iff]
    by_cases hi : i = slot
    · simp [hi, hgone]
    · rw [plain?_remove hvalid hi, hanchored.mem_iff]
      exact and_iff_right hi
  · change ((s.edges.remove slot e).get? i).map _ = _
    rw [edgeGet?_remove hvalid, if_neg (hnodup.mem_erase_iff.mp hi).1]

theorem Sound.removeEdge : (s.unlink slot e).Sound (order.erase slot) := by
  have hmem := h.mem_of_get? hslot
  have hplain := Sound.plain?_eq_some hslot
  have hchained := h.chained_unhook_unhook hslot
  have hdegreed := h.degreed_unhook_unhook hslot
  have hanchored := (h.toAnchored.unhook (e := e) (p := .outgoing)).unhook (e := e) (p := .incoming)
  have hindexed := (h.indexed.unhook (e := e) (p := .outgoing)).unhook (e := e) (p := .incoming)
  have hmutual := (h.paired.unhook (e := e) (p := .outgoing)).unhook (e := e) (p := .incoming)
  have hplain' : ∀ i, ((s.unhook e .outgoing).unhook e .incoming).plain? i = s.plain? i :=
    fun i => by rw [plain?_unhook, plain?_unhook]
  dsimp only [unlink]
  generalize (s.unhook e .outgoing).unhook e .incoming = t at *
  have hslot' := (hplain' slot).trans hplain
  have hflag : e.isMutual = true ↔ ∃ j ∈ order, ∃ f, t.plain? j = some f ∧ f.Reverses e :=
    hmutual.isMutual_iff slot hmem e.unlinked hslot'
  cases hj : t.reverse? e with
  | none =>
    have hplain : e.isMutual = false := by
      rw [← Bool.not_eq_true, hflag]
      rintro ⟨j, hjmem, f, hf, hreverses⟩
      exact hindexed.reverse?_eq_none_iff.mp hj j hjmem f hf hreverses
    exact sound_of_remove hanchored hmem hchained hdegreed hindexed
      (hmutual.erase hmem hslot' hplain) hslot' rfl rfl
  | some j =>
    obtain ⟨hjmem, f, hf, hreverses⟩ := hindexed.reverse?_eq_some_iff.mp hj
    have hne : e.source ≠ e.target := hreverses.2.2.2
    simp only [if_pos (hflag.mpr ⟨j, hjmem, f, hf, hreverses⟩)]
    exact sound_of_remove hanchored.setMutual hmem (fun p => (hchained p).setMutual hne)
      (fun p => (hdegreed p).setMutual hne) hindexed.setMutual
      (hmutual.unpair hindexed h.nodup hmem hslot' hjmem hf hreverses)
      (plain?_setMutual_self hslot') rfl rfl

end Going

/-! ### All edges go -/

theorem sound_nil {nodes : NodeTable} (hnodes : nodes.arena.Valid) (hedges : s.edges.arena.Valid)
    (hlabels : s.labels.Sound) (hbare : ∀ n N, nodes.get? n = some N → N.bare = N) :
    ({ s with nodes, edges := s.edges.clear } : Store).Sound [] := by
  have hnone : ∀ i, ({ s with nodes, edges := s.edges.clear } : Store).plain? i = none := by
    intro i
    rw [plain?]
    change (Arena.get? { growth := s.edges.arena.growth } i).map _ = none
    rw [Arena.get?_empty, Option.map_none]
  have hfind : ∀ a b l, s.edges.clear.find? a b l = none :=
    fun a b l => Std.HashMap.getElem?_empty
  constructor
  case toAnchored =>
    refine ⟨hnodes, hedges.clear, hlabels, List.nodup_nil, fun i => ?_, fun i x p hx => ?_,
      fun i x hx => ?_⟩
    · rw [hnone]
      simp
    · rw [hnone] at hx
      cases hx
    · rw [hnone] at hx
      cases hx
  case chained =>
    intro p n N label hN
    rw [← hbare n N hN]
    cases p <;> rfl
  case degreed =>
    intro p n N hN
    rw [← hbare n N hN]
    cases p <;> rfl
  case indexed =>
    refine ⟨fun a b l i => ?_, fun label => Std.HashMap.getD_empty, rfl⟩
    rw [hfind]
    simp
  case paired =>
    refine ⟨by simp, by simp, fun n N hN => ?_, rfl⟩
    rw [← hbare n N hN]
    rfl

theorem Sound.clearEdges (h : s.Sound order) :
    ({ s with nodes := s.nodes.dropEdges, edges := s.edges.clear } : Store).Sound [] := by
  refine sound_nil h.nodes_valid.map h.edges_valid h.labels_sound fun n N hN => ?_
  change (s.nodes.arena.map NodeSlot.bare).get? n = some N at hN
  rw [Arena.get?_map, Option.map_eq_some_iff] at hN
  obtain ⟨M, _, rfl⟩ := hN
  rfl

theorem Sound.clear (h : s.Sound order) :
    ({ s with nodes := s.nodes.clear, edges := s.edges.clear } : Store).Sound [] := by
  refine sound_nil h.nodes_valid.clear h.edges_valid h.labels_sound fun n N hN => ?_
  change Arena.get? { growth := s.nodes.arena.growth } n = some N at hN
  rw [Arena.get?_empty] at hN
  cases hN

/-! ### What stays of other nodes and edges -/

def fixed? (s : Store) (i : Nat) : Option (Edge × Sides Nat × Nat) :=
  (s.edges.get? i).map EdgeSlot.fixed

theorem fixed?_eq : s.fixed? i = (s.plain? i).map EdgeSlot.fixed := by
  rw [plain?, Option.map_map]
  rfl

theorem edge?_eq : s.edge? i = (s.fixed? i).map (·.1) := by
  rw [fixed?, Option.map_map]
  rfl

theorem edge?_of_fixed? {y : Edge × Sides Nat × Nat} (hy : s.fixed? i = some y) :
    s.edge? i = some y.1 := by
  rw [edge?_eq, hy, Option.map_some]

theorem fixed?_of_clear {t : EdgeTable} (hedges : s.edges = t.clear) : s.fixed? i = none := by
  rw [fixed?, hedges]
  change (Arena.get? { growth := t.arena.growth } i).map _ = _
  rw [Arena.get?_empty, Option.map_none]

theorem node?_of_clear {t : NodeTable} (hnodes : s.nodes = t.clear) : s.node? n = none := by
  rw [node?, hnodes]
  change (Arena.get? { growth := t.arena.growth } n).map _ = _
  rw [Arena.get?_empty, Option.map_none]

theorem node?_of_dropEdges {t : Store} (hnodes : s.nodes = t.nodes.dropEdges) :
    s.node? n = t.node? n := by
  rw [node?, hnodes, node?]
  change ((t.nodes.arena.map NodeSlot.bare).get? n).map _ = (t.nodes.arena.get? n).map _
  rw [Arena.get?_map, Option.map_map]
  rfl

theorem Sound.mem_iff_fixed? (h : s.Sound order) : i ∈ order ↔ (s.fixed? i).isSome := by
  rw [h.mem_iff, fixed?_eq, Option.isSome_map]

theorem Sound.mem_of_edge? {edge : Edge} (h : s.Sound order) (hedge : s.edge? i = some edge) :
    i ∈ order := by
  rw [edge?_eq, Option.map_eq_some_iff] at hedge
  obtain ⟨x, hx, _⟩ := hedge
  rw [h.mem_iff_fixed?, hx]
  rfl

theorem Sound.mem_nodeSlots (h : s.Sound order) : n ∈ s.nodes.slots ↔ (s.node? n).isSome := by
  rw [node?, Option.isSome_map]
  exact h.nodes_valid.toLaid.mem_slots

theorem Sound.mem_edgeSlots (h : s.Sound order) : i ∈ s.edges.slots ↔ (s.fixed? i).isSome := by
  rw [fixed?, Option.isSome_map]
  exact h.edges_valid.toLaid.mem_slots

theorem Sound.node?_of_fixed? (h : s.Sound order) {y : Edge × Sides Nat × Nat}
    (hy : s.fixed? i = some y) (p : Phase) : s.node? (y.2.1.get p) = some (y.1.node p.role) := by
  rw [fixed?_eq, Option.map_eq_some_iff] at hy
  obtain ⟨x, hx, rfl⟩ := hy
  exact h.node_of_end i x p hx

theorem Sound.mem_iff_get? (h : s.Sound order) (i : Nat) :
    i ∈ order ↔ (s.edges.get? i).isSome := by
  rw [h.mem_iff, plain?, Option.isSome_map]

theorem Sound.mem_incident (h : s.Sound order) {y : Edge × Sides Nat × Nat} {N : NodeSlot}
    (hN : s.nodes.get? n = some N) (hy : s.fixed? i = some y) (hend : y.2.1.get p = n) :
    i ∈ s.incident N := by
  obtain ⟨e, he, rfl⟩ := Option.map_eq_some_iff.mp hy
  rw [Store.mem_incident h.chained h.nodup h.mem_iff_get? hN]
  refine ⟨e, he, ?_⟩
  cases p with
  | outgoing => exact .inl hend
  | incoming => exact .inr hend

theorem Sound.nodup_incident (h : s.Sound order) {N : NodeSlot} (hN : s.nodes.get? n = some N) :
    (s.incident N).Nodup := Store.nodup_incident h.chained h.nodup h.mem_iff_get? hN

theorem fixed?_setMutual : (s.setMutual slot j e paired).fixed? i = s.fixed? i := by
  rw [fixed?_eq, plain?_setMutual, fixed?_eq, Option.map_map]
  congr 1
  funext x
  simp only [Function.comp]
  split <;> rfl

theorem link_cases (s : Store) (slot : Nat) (e : EdgeSlot) :
    ∃ t, s.link slot e = { t with edges := t.edges.register slot e } ∧
    (t = (s.hook slot e .outgoing).hook slot e .incoming ∨
      ∃ j, t = ((s.hook slot e .outgoing).hook slot e .incoming).setMutual slot j e true) := by
  dsimp only [link]
  generalize (s.hook slot e .outgoing).hook slot e .incoming = t
  cases t.reverse? e with
  | none => exact ⟨t, rfl, .inl rfl⟩
  | some j =>
    by_cases hdirected : e.edge.directed
    · exact ⟨t.setMutual slot j e true, by simp only [if_pos hdirected], .inr ⟨j, rfl⟩⟩
    · exact ⟨t, by simp only [if_neg hdirected], .inl rfl⟩

theorem unlink_cases (s : Store) (slot : Nat) (e : EdgeSlot) :
    ∃ t, s.unlink slot e = { t with edges := t.edges.remove slot e } ∧
    (t = (s.unhook e .outgoing).unhook e .incoming ∨
      ∃ j, t = ((s.unhook e .outgoing).unhook e .incoming).setMutual slot j e false) := by
  dsimp only [unlink]
  generalize (s.unhook e .outgoing).unhook e .incoming = t
  cases t.reverse? e with
  | none => exact ⟨t, rfl, .inl rfl⟩
  | some j =>
    by_cases hmutual : e.isMutual
    · exact ⟨t.setMutual slot j e false, by simp only [if_pos hmutual], .inr ⟨j, rfl⟩⟩
    · exact ⟨t, by simp only [if_neg hmutual], .inl rfl⟩

theorem fixed?_register :
    ({ s with edges := s.edges.register slot e } : Store).fixed? i = s.fixed? i := rfl

theorem fixed?_remove (hvalid : s.edges.arena.Valid) :
    ({ s with edges := s.edges.remove slot e } : Store).fixed? i =
      if i = slot then none else s.fixed? i := by
  rw [fixed?, edgeGet?_remove hvalid]
  split <;> rfl

theorem fixed?_link : (s.link slot e).fixed? i = s.fixed? i := by
  have hhooks : ((s.hook slot e .outgoing).hook slot e .incoming).fixed? i = s.fixed? i := by
    rw [fixed?_eq, plain?_hook, plain?_hook, fixed?_eq]
  obtain ⟨t, ht, rfl | ⟨j, rfl⟩⟩ := link_cases s slot e
  · rw [ht, fixed?_register, hhooks]
  · rw [ht, fixed?_register, fixed?_setMutual, hhooks]

theorem fixed?_unlink (h : s.Sound order) :
    (s.unlink slot e).fixed? i = if i = slot then none else s.fixed? i := by
  have hhooks : ((s.unhook e .outgoing).unhook e .incoming).fixed? i = s.fixed? i := by
    rw [fixed?_eq, plain?_unhook, plain?_unhook, fixed?_eq]
  have hanchored := (h.toAnchored.unhook (e := e) (p := .outgoing)).unhook (e := e) (p := .incoming)
  obtain ⟨t, ht, rfl | ⟨j, rfl⟩⟩ := unlink_cases s slot e
  · rw [ht, fixed?_remove hanchored.edges_valid, hhooks]
  · rw [ht, fixed?_remove hanchored.setMutual.edges_valid, fixed?_setMutual, hhooks]

theorem node?_withEdges {edges : EdgeTable} : ({ s with edges } : Store).node? n = s.node? n := rfl

theorem node?_link : (s.link slot e).node? n = s.node? n := by
  have hhooks : ((s.hook slot e .outgoing).hook slot e .incoming).node? n = s.node? n := by simp
  obtain ⟨t, ht, rfl | ⟨j, rfl⟩⟩ := link_cases s slot e
  · rw [ht, node?_withEdges, hhooks]
  · rw [ht, node?_withEdges, node?_setMutual, hhooks]

theorem node?_unlink : (s.unlink slot e).node? n = s.node? n := by
  have hhooks : ((s.unhook e .outgoing).unhook e .incoming).node? n = s.node? n := by simp
  obtain ⟨t, ht, rfl | ⟨j, rfl⟩⟩ := unlink_cases s slot e
  · rw [ht, node?_withEdges, hhooks]
  · rw [ht, node?_withEdges, node?_setMutual, hhooks]

theorem fixed?_link_alloc {labels : LabelRegistry} {arena : Arena EdgeSlot}
    (hget : ∀ i, arena.get? i = if i = slot then some e else s.edges.get? i) (i : Nat) :
    (Store.link { s with labels, edges := { s.edges with arena } } slot e).fixed? i =
      if i = slot then some e.fixed else s.fixed? i := by
  rw [fixed?_link, fixed?]
  change (arena.get? i).map _ = _
  rw [hget]
  split <;> rfl

theorem setMutual_eq : s.setMutual slot j e paired =
    { s with
      nodes := (s.setMutual slot j e paired).nodes
      edges := (s.setMutual slot j e paired).edges } := rfl

theorem link_eq : s.link slot e =
    { s with nodes := (s.link slot e).nodes, edges := (s.link slot e).edges } := by
  obtain ⟨t, ht, rfl | ⟨j, rfl⟩⟩ := link_cases s slot e
  · rw [ht, hook_eq, hook_eq]
  · rw [ht, setMutual_eq, hook_eq, hook_eq]

theorem token_link : (s.link slot e).token = s.token := by rw [link_eq]

theorem views_link : (s.link slot e).views = s.views := by rw [link_eq]

theorem unlink_eq : s.unlink slot e =
    { s with nodes := (s.unlink slot e).nodes, edges := (s.unlink slot e).edges } := by
  obtain ⟨t, ht, rfl | ⟨j, rfl⟩⟩ := unlink_cases s slot e
  · rw [ht, unhook_eq, unhook_eq]
  · rw [ht, setMutual_eq, unhook_eq, unhook_eq]

theorem token_unlink : (s.unlink slot e).token = s.token := by rw [unlink_eq]

theorem views_unlink : (s.unlink slot e).views = s.views := by rw [unlink_eq]

/-! ### Indexes of ids -/

theorem ids_link : (s.link slot e).nodes.ids = s.nodes.ids ∧
    (s.link slot e).edges.ids = s.edges.ids.insert e.edge.id slot ∧
    (s.link slot e).edges.kind = s.edges.kind := by
  obtain ⟨t, ht, rfl | ⟨j, rfl⟩⟩ := link_cases s slot e
  · rw [ht, hook_eq, hook_eq]
    exact ⟨rfl, rfl, rfl⟩
  · rw [ht, setMutual_eq, hook_eq, hook_eq]
    exact ⟨rfl, rfl, rfl⟩

theorem ids_unlink : (s.unlink slot e).nodes.ids = s.nodes.ids ∧
    (s.unlink slot e).edges.ids = s.edges.ids.erase e.edge.id ∧
    (s.unlink slot e).edges.kind = s.edges.kind := by
  obtain ⟨t, ht, rfl | ⟨j, rfl⟩⟩ := unlink_cases s slot e
  · rw [ht, unhook_eq, unhook_eq]
    exact ⟨rfl, rfl, rfl⟩
  · rw [ht, setMutual_eq, unhook_eq, unhook_eq]
    exact ⟨rfl, rfl, rfl⟩

/-! ### The stack of free slots -/

theorem garbage_hook : (s.hook slot e p).edges.arena.garbage = s.edges.arena.garbage := by
  dsimp only [hook]
  cases (s.nodes.get? (e.ends.get p)).bind (·.head? p e.label) with
  | none => exact Arena.garbage_modify
  | some first => exact Arena.garbage_modify.trans Arena.garbage_modify

theorem garbage_unhook : (s.unhook e p).edges.arena.garbage = s.edges.arena.garbage := by
  dsimp only [unhook]
  cases e.prev? p <;> cases e.next? p
  · rfl
  · exact Arena.garbage_modify
  · exact Arena.garbage_modify
  · exact Arena.garbage_modify.trans Arena.garbage_modify

theorem garbage_setMutual :
    (s.setMutual slot j e paired).edges.arena.garbage = s.edges.arena.garbage := by
  change ((s.edges.arena.modify slot _).modify j _).garbage = _
  rw [Arena.garbage_modify, Arena.garbage_modify]

theorem garbage_remove (hvalid : s.edges.arena.Valid) (hslot : s.edges.get? slot = some x) :
    (s.edges.remove slot e).arena.garbage = slot :: s.edges.arena.garbage :=
  hvalid.garbage_free_of_some hslot

theorem garbage_link : (s.link slot e).edges.arena.garbage = s.edges.arena.garbage := by
  obtain ⟨t, ht, rfl | ⟨j, rfl⟩⟩ := link_cases s slot e
  · rw [ht, EdgeTable.register, garbage_hook, garbage_hook]
  · rw [ht, EdgeTable.register, garbage_setMutual, garbage_hook, garbage_hook]

theorem Sound.garbage_unlink (h : s.Sound order) (hslot : s.edges.get? slot = some e) :
    (s.unlink slot e).edges.arena.garbage = slot :: s.edges.arena.garbage := by
  have hanchored := (h.toAnchored.unhook (e := e) (p := .outgoing)).unhook (e := e) (p := .incoming)
  have hplain : ((s.unhook e .outgoing).unhook e .incoming).plain? slot = some e.unlinked := by
    rw [plain?_unhook, plain?_unhook, plain?_eq_some hslot]
  obtain ⟨t, ht, rfl | ⟨j, rfl⟩⟩ := unlink_cases s slot e
  · obtain ⟨f, hf, _⟩ := exists_get?_of_plain? hplain
    rw [ht, garbage_remove hanchored.edges_valid hf, garbage_unhook, garbage_unhook]
  · have hflagged : (((s.unhook e .outgoing).unhook e .incoming).setMutual slot j e false).plain? slot =
        some (e.unlinked.flag false) := plain?_setMutual_self hplain
    obtain ⟨f, hf, _⟩ := exists_get?_of_plain? hflagged
    rw [ht, garbage_remove hanchored.setMutual.edges_valid hf, garbage_setMutual, garbage_unhook,
      garbage_unhook]

end PropertyGraph.Store

import PropertyGraph.Proofs.Store.Wiring

/-!
# The chains of a store

An edge lies on one chain of either phase: on that of its node and its label. Seen from the edges
that are stored, listed with the one stored last in front, a chain is what remains of that list when
all others are left out. Hooking an edge in puts it in front of the list, hooking it out erases it
from the list, and for any other node, label or phase neither can be seen.
-/

namespace PropertyGraph

/-- What of an edge its chain of a phase depends on. -/
def EdgeSlot.shape (e : EdgeSlot) (p : Phase) : (Edge × Sides Nat × Nat) × Link :=
  (e.fixed, e.links.get p)

theorem EdgeSlot.shape_relink_of_ne {e : EdgeSlot} {p q : Phase} {f : Link → Link} (hne : q ≠ p) :
    (e.relink p f).shape q = e.shape q :=
  congrArg (Prod.mk e.fixed) (Sides.get_modify_of_ne hne)

namespace Store

variable {s s' : Store} {slot i n label : Nat} {p q : Phase} {e e' : EdgeSlot} {N : NodeSlot}
  {order : List Nat}

def link? (s : Store) (p : Phase) (slot : Nat) : Option Link :=
  (s.edges.get? slot).map (·.links.get p)

/-- Whether the edge in a slot has a label and, at the end that belongs to a phase, a node. -/
def onChain (s : Store) (p : Phase) (n label slot : Nat) : Bool :=
  (s.edges.get? slot).any fun e => e.ends.get p == n && e.label == label

/-- The chains of a phase are those of the listed edges, in the order of the list. -/
def Chained (s : Store) (p : Phase) (order : List Nat) : Prop :=
  ∀ n N label, s.nodes.get? n = some N →
    Linked (s.link? p) none (N.head? p label) (order.filter (s.onChain p n label))

theorem onChain_iff :
    s.onChain p n label slot = true ↔
      ∃ e, s.edges.get? slot = some e ∧ e.ends.get p = n ∧ e.label = label := by
  simp only [onChain, Option.any_eq_true, Bool.and_eq_true, beq_iff_eq]

theorem onChain_of_fixed (h : (s'.edges.get? slot).map EdgeSlot.fixed =
    (s.edges.get? slot).map EdgeSlot.fixed) : s'.onChain p n label slot = s.onChain p n label slot := by
  have hread : ∀ t : Store, t.onChain p n label slot =
      ((t.edges.get? slot).map EdgeSlot.fixed).any fun x => x.2.1.get p == n && x.2.2 == label := by
    intro t
    rw [onChain]
    cases t.edges.get? slot <;> rfl
  rw [hread, hread, h]

theorem onChain_eq_false (he : s.edges.get? slot = some e)
    (h : ¬(n = e.ends.get p ∧ label = e.label)) : s.onChain p n label slot = false := by
  rw [← Bool.not_eq_true, onChain_iff]
  rintro ⟨x, hx, rfl, rfl⟩
  rw [he, Option.some.injEq] at hx
  exact h ⟨by rw [hx], by rw [hx]⟩

theorem ne_of_onChain {n' label' : Nat} (hslot : s.onChain p n label slot = true)
    (hi : s.onChain p n' label' i = true) (h : ¬(n' = n ∧ label' = label)) : i ≠ slot := by
  rintro rfl
  obtain ⟨e, he, rfl, rfl⟩ := onChain_iff.mp hslot
  rw [onChain_eq_false he h] at hi
  cases hi

namespace Chained

theorem congr (h : s.Chained p order)
    (hedges : ∀ i ∈ order, (s'.edges.get? i).map (·.shape p) = (s.edges.get? i).map (·.shape p))
    (hnodes : ∀ n N', s'.nodes.get? n = some N' →
      ∃ N, s.nodes.get? n = some N ∧ N'.heads.get p = N.heads.get p) :
    s'.Chained p order := by
  intro n N' label hN'
  obtain ⟨N, hN, hheads⟩ := hnodes n N' hN'
  have hfixed : ∀ i ∈ order, (s'.edges.get? i).map EdgeSlot.fixed =
      (s.edges.get? i).map EdgeSlot.fixed := by
    intro i hi
    have hshape := congrArg (Option.map Prod.fst) (hedges i hi)
    rwa [Option.map_map, Option.map_map] at hshape
  have hlinks : ∀ i ∈ order, s'.link? p i = s.link? p i := by
    intro i hi
    have hshape := congrArg (Option.map Prod.snd) (hedges i hi)
    rwa [Option.map_map, Option.map_map] at hshape
  have hhead : N'.head? p label = N.head? p label := by
    rw [NodeSlot.head?, NodeSlot.head?, hheads]
  rw [hhead, List.filter_congr fun i hi => onChain_of_fixed (hfixed i hi)]
  exact (h n N label hN).congr fun i hi => hlinks i (List.mem_of_mem_filter hi)

theorem headFor_onChain (h : s.Chained p order) (hhead : s.headFor e p = some i) :
    s.onChain p (e.ends.get p) e.label i = true := by
  obtain ⟨N, hN, hfirst⟩ := Option.bind_eq_some_iff.mp hhead
  have hchain := (h _ N e.label hN).start_eq_head?
  rw [hfirst] at hchain
  exact List.of_mem_filter (List.mem_of_head? hchain.symm)

theorem onChain_of_neighbour {link : Link} (h : s.Chained p order) (hmem : slot ∈ order)
    (hN : s.nodes.get? n = some N) (hon : s.onChain p n label slot = true)
    (hlink : s.link? p slot = some link) (hi : link.prev = some i ∨ link.next = some i) :
    s.onChain p n label i = true := by
  have hchain := h n N label hN
  have hin : slot ∈ order.filter (s.onChain p n label) := List.mem_filter.mpr ⟨hmem, hon⟩
  rcases hi with hprev | hnext
  · rcases hchain.prev_mem hin hlink with hnone | ⟨j, hj, hsome⟩
    · rw [hprev] at hnone
      cases hnone
    · rw [hprev, Option.some.injEq] at hsome
      exact hsome ▸ List.of_mem_filter hj
  · exact List.of_mem_filter (hchain.next_mem hin hlink hnext)

/-! ### Hooking in and out for the phase -/

theorem onChain_hook : (s.hook slot e p).onChain q n label = s.onChain q n label := by
  funext i
  refine onChain_of_fixed ?_
  rw [edgeGet?_hook, Option.map_map]
  rfl

theorem onChain_unhook : (s.unhook e p).onChain q n label = s.onChain q n label := by
  funext i
  refine onChain_of_fixed ?_
  rw [edgeGet?_unhook, Option.map_map]
  rfl

theorem link?_hook :
    (s.hook slot e p).link? p i = linksPushed (s.link? p) slot (s.headFor e p) i := by
  rw [link?, edgeGet?_hook, linksPushed, link?, Option.map_map, Option.map_map]
  congr 1
  funext x
  exact Sides.get_modify_self

theorem link?_unhook :
    (s.unhook e p).link? p i = linksSpliced (s.link? p) (e.links.get p) i := by
  rw [link?, edgeGet?_unhook, linksSpliced, link?, Option.map_map, Option.map_map]
  congr 1
  funext x
  exact Sides.get_modify_self

theorem exists_head?_hook (hN' : (s.hook slot e p).nodes.get? n = some N) :
    ∃ M, s.nodes.get? n = some M ∧ ∀ label, N.head? p label =
      if n = e.ends.get p ∧ label = e.label then some slot else M.head? p label := by
  rw [nodeGet?_hook, Option.map_eq_some_iff] at hN'
  obtain ⟨M, hM, rfl⟩ := hN'
  refine ⟨M, hM, fun label => ?_⟩
  by_cases hn : n = e.ends.get p
  · rw [if_pos hn, NodeSlot.head?_raiseDegree, NodeSlot.head?_setHead_self]
    exact if_congr (and_iff_right hn).symm rfl rfl
  · rw [if_neg hn, if_neg fun hown => hn hown.1]

theorem exists_head?_unhook (hN' : (s.unhook e p).nodes.get? n = some N) :
    ∃ M, s.nodes.get? n = some M ∧ ∀ label, N.head? p label =
      if (n = e.ends.get p ∧ label = e.label) ∧ e.prev? p = none then e.next? p
      else M.head? p label := by
  rw [nodeGet?_unhook, Option.map_eq_some_iff] at hN'
  obtain ⟨M, hM, rfl⟩ := hN'
  refine ⟨M, hM, fun label => ?_⟩
  by_cases hn : n = e.ends.get p
  · rw [if_pos hn, NodeSlot.head?_lowerDegree]
    by_cases hfirst : e.prev? p = none
    · rw [if_pos hfirst, NodeSlot.head?_setHead_self]
      exact if_congr ((and_iff_left hfirst).trans (and_iff_right hn)).symm rfl rfl
    · rw [if_neg hfirst, if_neg fun hown => hfirst hown.2]
  · rw [if_neg hn, if_neg fun hown => hn hown.1.1]

theorem hook (h : s.Chained p order) (hnodup : (slot :: order).Nodup)
    (hslot : s.edges.get? slot = some e') (hfixed : e'.fixed = e.fixed)
    (hfresh : (e'.links.get p).prev = none) : (s.hook slot e p).Chained p (slot :: order) := by
  have hends : e'.ends = e.ends := congrArg (·.2.1) hfixed
  have hlabel : e'.label = e.label := congrArg (·.2.2) hfixed
  have hnew : (s.link? p slot) = some (e'.links.get p) := by rw [link?, hslot, Option.map_some]
  intro n N' label hN'
  obtain ⟨N, hN, hhead⟩ := exists_head?_hook hN'
  rw [hhead, onChain_hook]
  by_cases hown : n = e.ends.get p ∧ label = e.label
  · rw [if_pos hown]
    obtain ⟨rfl, rfl⟩ := hown
    have hfirst : s.headFor e p = N.head? p e.label := by rw [headFor, hN, Option.bind_some]
    have hon : s.onChain p (e.ends.get p) e.label slot = true :=
      onChain_iff.mpr ⟨e', hslot, by rw [hends], hlabel⟩
    have hchain := h _ N e.label hN
    rw [← hfirst] at hchain
    rw [List.filter_cons_of_pos hon]
    refine (hchain.push ?_ hnew hfresh).congr fun i _ => link?_hook
    rw [← List.filter_cons_of_pos hon]
    exact hnodup.filter _
  · -- no edge of another chain is the new edge or the one that it pushes down
    have hoff : ¬s.onChain p n label slot = true := by
      rw [onChain_eq_false hslot (by rwa [hends, hlabel])]
      exact Bool.false_ne_true
    rw [if_neg hown, List.filter_cons_of_neg hoff]
    refine (h n N label hN).congr fun i hi => ?_
    have hi := List.of_mem_filter hi
    have hislot : i ≠ slot := fun heq => hoff (heq ▸ hi)
    have hfar : s.headFor e p ≠ some i :=
      fun heq => ne_of_onChain (h.headFor_onChain heq) hi hown rfl
    rw [link?_hook, linksPushed_of_ne hislot hfar]

theorem unhook (h : s.Chained p order) (hnodup : order.Nodup) (hmem : slot ∈ order)
    (hend : (s.nodes.get? (e.ends.get p)).isSome) (hslot : s.edges.get? slot = some e')
    (hshape : e'.shape p = e.shape p) : (s.unhook e p).Chained p (order.erase slot) := by
  have hends : e'.ends = e.ends := congrArg (·.1.2.1) hshape
  have hlabel : e'.label = e.label := congrArg (·.1.2.2) hshape
  have hlink : e'.links.get p = e.links.get p := congrArg (·.2) hshape
  have hold : s.link? p slot = some (e.links.get p) := by
    rw [link?, hslot, Option.map_some, hlink]
  have hon : s.onChain p (e.ends.get p) e.label slot = true :=
    onChain_iff.mpr ⟨e', hslot, by rw [hends], hlabel⟩
  intro n N' label hN'
  obtain ⟨N, hN, hhead⟩ := exists_head?_unhook hN'
  rw [hhead, onChain_unhook, ← List.erase_filter]
  by_cases hown : n = e.ends.get p ∧ label = e.label
  · rw [if_congr (and_iff_right hown) rfl rfl]
    obtain ⟨rfl, rfl⟩ := hown
    exact ((h _ N e.label hN).erase (hnodup.filter _) (List.mem_filter.mpr ⟨hmem, hon⟩) hold).congr
      fun i _ => link?_unhook
  · -- no edge of another chain is a neighbour of the edge that goes
    have hoff : slot ∉ order.filter (s.onChain p n label) := by
      intro hin
      have hon := List.of_mem_filter hin
      rw [onChain_eq_false hslot (by rwa [hends, hlabel])] at hon
      cases hon
    rw [if_neg fun hfirst => hown hfirst.1, List.erase_of_not_mem hoff]
    refine (h n N label hN).congr fun i hi => ?_
    obtain ⟨N₀, hN₀⟩ := Option.isSome_iff_exists.mp hend
    have hfar : ¬((e.links.get p).prev = some i ∨ (e.links.get p).next = some i) := fun hnear =>
      ne_of_onChain (h.onChain_of_neighbour hmem hN₀ hon hold hnear) (List.of_mem_filter hi) hown rfl
    rw [link?_unhook, linksSpliced_of_ne (fun hprev => hfar (.inl hprev)) fun hnext => hfar (.inr hnext)]

/-! ### Hooking in and out for the other phase -/

theorem hook_of_ne (h : s.Chained q order) (hne : q ≠ p) : (s.hook slot e p).Chained q order := by
  refine h.congr (fun i _ => ?_) fun n N' hN' => ?_
  · rw [edgeGet?_hook, Option.map_map]
    congr 1
    funext x
    exact EdgeSlot.shape_relink_of_ne hne
  · rw [nodeGet?_hook, Option.map_eq_some_iff] at hN'
    obtain ⟨N, hN, rfl⟩ := hN'
    refine ⟨N, hN, ?_⟩
    split
    · exact Sides.get_modify_of_ne hne
    · rfl

theorem unhook_of_ne (h : s.Chained q order) (hne : q ≠ p) : (s.unhook e p).Chained q order := by
  refine h.congr (fun i _ => ?_) fun n N' hN' => ?_
  · rw [edgeGet?_unhook, Option.map_map]
    congr 1
    funext x
    exact EdgeSlot.shape_relink_of_ne hne
  · rw [nodeGet?_unhook, Option.map_eq_some_iff] at hN'
    obtain ⟨N, hN, rfl⟩ := hN'
    refine ⟨N, hN, ?_⟩
    split
    · split
      · exact Sides.get_modify_of_ne hne
      · rfl
    · rfl

end Chained

/-! ### Reading chains -/

@[simp]
theorem chainFrom_none (steps : Nat) : s.chainFrom p steps none = [] := by cases steps <;> rfl

theorem get?_of_mem_chainFrom {steps : Nat} {start : Option Nat}
    (h : (i, e) ∈ s.chainFrom p steps start) : s.edges.get? i = some e := by
  induction steps generalizing start with
  | zero => cases h
  | succ steps ih =>
    cases start with
    | none => cases h
    | some slot =>
      rw [chainFrom] at h
      cases hslot : s.edges.get? slot with
      | none =>
        rw [hslot] at h
        cases h
      | some x =>
        rw [hslot] at h
        rcases List.mem_cons.mp h with heq | hrest
        · cases heq
          exact hslot
        · exact ih hrest

theorem map_fst_chainFrom {prev start : Option Nat} {l : List Nat} {steps : Nat}
    (h : Linked (s.link? p) prev start l) (hsteps : l.length ≤ steps) :
    (s.chainFrom p steps start).map (·.1) = l := by
  induction l generalizing prev start steps with
  | nil =>
    rw [show start = none from h]
    cases steps <;> rfl
  | cons slot rest ih =>
    obtain ⟨rfl, link, hlink, _, hrest⟩ := h
    obtain ⟨e, he, rfl⟩ := Option.map_eq_some_iff.mp hlink
    cases steps with
    | zero => cases hsteps
    | succ steps =>
      rw [chainFrom, he, List.map_cons]
      exact congrArg _ (ih hrest (Nat.le_of_succ_le_succ hsteps))

theorem length_le (hnodup : order.Nodup) (hlive : ∀ i, i ∈ order ↔ (s.edges.get? i).isSome) :
    order.length ≤ s.edges.arena.length := by
  have hbound : order ⊆ List.range s.edges.arena.length := by
    intro i hi
    obtain ⟨e, he⟩ := Option.isSome_iff_exists.mp ((hlive i).mp hi)
    exact List.mem_range.mpr (Arena.lt_length_of_get? he)
  have hle := (hnodup.subperm hbound).length_le
  rwa [List.length_range] at hle

section Chains

variable (hchained : ∀ p, s.Chained p order) (hnodup : order.Nodup)
  (hlive : ∀ i, i ∈ order ↔ (s.edges.get? i).isSome)
include hchained hnodup hlive

/-- A chain of a node holds the listed edges that are on it, in the order of the list. -/
theorem map_fst_chainFrom_head (hN : s.nodes.get? n = some N) (label : Nat) :
    (s.chainFrom p s.edges.arena.length (N.head? p label)).map (·.1) =
      order.filter (s.onChain p n label) := by
  exact map_fst_chainFrom (hchained p n N label hN)
    ((List.length_filter_le _ _).trans (length_le hnodup hlive))

theorem mem_chains (hN : s.nodes.get? n = some N) :
    (i, e) ∈ s.chains N p ↔ s.edges.get? i = some e ∧ e.ends.get p = n := by
  have hchain := map_fst_chainFrom_head (p := p) hchained hnodup hlive hN
  rw [chains, List.mem_flatMap]
  constructor
  · rintro ⟨head, hhead, hmem⟩
    have he := get?_of_mem_chainFrom hmem
    obtain ⟨label, hlabel⟩ := Array.mem_iff_getElem?.mp (Array.mem_toList_iff.mp hhead)
    have hhead' : N.head? p label = head := by rw [NodeSlot.head?, hlabel, Option.join_some]
    have hin : i ∈ order.filter (s.onChain p n label) := by
      rw [← hchain, hhead']
      exact List.mem_map_of_mem hmem
    obtain ⟨x, hx, hends, _⟩ := onChain_iff.mp (List.of_mem_filter hin)
    rw [he, Option.some.injEq] at hx
    exact ⟨he, hx ▸ hends⟩
  · rintro ⟨he, rfl⟩
    have hin : i ∈ order.filter (s.onChain p (e.ends.get p) e.label) :=
      List.mem_filter.mpr ⟨(hlive i).mpr (by rw [he]; rfl), onChain_iff.mpr ⟨e, he, rfl, rfl⟩⟩
    rw [← hchain] at hin
    obtain ⟨⟨j, x⟩, hmem, rfl⟩ := List.mem_map.mp hin
    have hx := get?_of_mem_chainFrom hmem
    rw [he, Option.some.injEq] at hx
    subst hx
    cases hhead : (N.heads.get p)[e.label]? with
    | none =>
      rw [NodeSlot.head?, hhead, Option.join_none, chainFrom_none] at hmem
      cases hmem
    | some head =>
      rw [NodeSlot.head?, hhead, Option.join_some] at hmem
      exact ⟨head, Array.mem_toList_iff.mpr (Array.mem_of_getElem? hhead), hmem⟩

theorem mem_incident (hN : s.nodes.get? n = some N) :
    i ∈ s.incident N ↔ ∃ e, s.edges.get? i = some e ∧ (e.source = n ∨ e.target = n) := by
  have hchains : ∀ {i e} p, (i, e) ∈ s.chains N p ↔ s.edges.get? i = some e ∧ e.ends.get p = n :=
    fun p => mem_chains hchained hnodup hlive hN
  rw [incident, List.mem_append, List.mem_map, List.mem_map]
  constructor
  · rintro (⟨⟨j, e⟩, hmem, rfl⟩ | ⟨⟨j, e⟩, hmem, rfl⟩)
    · obtain ⟨he, hend⟩ := (hchains .outgoing).mp hmem
      exact ⟨e, he, .inl hend⟩
    · obtain ⟨he, hend⟩ := (hchains .incoming).mp (List.mem_of_mem_filter hmem)
      exact ⟨e, he, .inr hend⟩
  · rintro ⟨e, he, hend⟩
    by_cases hsource : e.source = n
    · exact .inl ⟨(i, e), (hchains .outgoing).mpr ⟨he, hsource⟩, rfl⟩
    · have htarget := hend.resolve_left hsource
      have hloop : e.isLoop = false := by
        rw [EdgeSlot.isLoop, htarget]
        exact beq_false_of_ne hsource
      refine .inr ⟨(i, e), List.mem_filter.mpr ⟨(hchains .incoming).mpr ⟨he, htarget⟩, ?_⟩, rfl⟩
      simp [hloop]

theorem nodup_chains (hN : s.nodes.get? n = some N) : ((s.chains N p).map (·.1)).Nodup := by
  have hchain := map_fst_chainFrom_head (p := p) hchained hnodup hlive hN
  have hhead : ∀ (label : Nat) (h : label < (N.heads.get p).toList.length),
      (N.heads.get p).toList[label] = N.head? p label := by
    intro label h
    rw [Array.length_toList] at h
    rw [NodeSlot.head?, Array.getElem?_eq_getElem h, Option.join_some, Array.getElem_toList]
  rw [chains, List.map_flatMap, List.nodup_flatMap, List.pairwise_iff_getElem]
  constructor
  · intro head hmem
    obtain ⟨label, hlt, rfl⟩ := List.mem_iff_getElem.mp hmem
    rw [hhead label hlt, hchain]
    exact hnodup.filter _
  · intro label label' hlt hlt' hne i hi hi'
    dsimp only at hi hi'
    rw [hhead label hlt, hchain] at hi
    rw [hhead label' hlt', hchain] at hi'
    obtain ⟨e, he, _, hlabel⟩ := onChain_iff.mp (List.of_mem_filter hi)
    obtain ⟨e', he', _, hlabel'⟩ := onChain_iff.mp (List.of_mem_filter hi')
    rw [he, Option.some.injEq] at he'
    subst he'
    omega

theorem length_chains_le (hN : s.nodes.get? n = some N) :
    (s.chains N p).length ≤ s.edges.arena.length := by
  have hlisted : (s.chains N p).map (·.1) ⊆ order := by
    intro i hi
    obtain ⟨⟨j, e⟩, hmem, rfl⟩ := List.mem_map.mp hi
    obtain ⟨he, _⟩ := (mem_chains hchained hnodup hlive hN).mp hmem
    exact (hlive j).mpr (by rw [he]; rfl)
  have hle := ((nodup_chains hchained hnodup hlive hN).subperm hlisted).length_le
  rw [List.length_map] at hle
  exact hle.trans (length_le hnodup hlive)

/-- No edge is twice among those at a node: a loop is left out of the second phase. -/
theorem nodup_incident (hN : s.nodes.get? n = some N) : (s.incident N).Nodup := by
  have hchains : ∀ {i e} p, (i, e) ∈ s.chains N p ↔ s.edges.get? i = some e ∧ e.ends.get p = n :=
    fun p => mem_chains hchained hnodup hlive hN
  rw [incident, List.nodup_append]
  refine ⟨nodup_chains hchained hnodup hlive hN,
    (List.filter_sublist.map _).nodup (nodup_chains hchained hnodup hlive hN), ?_⟩
  rintro i hout _ hin rfl
  obtain ⟨⟨j, e⟩, hmem, rfl⟩ := List.mem_map.mp hout
  obtain ⟨⟨k, e'⟩, hmem', rfl⟩ := List.mem_map.mp hin
  rw [List.mem_filter] at hmem'
  obtain ⟨he, hsource⟩ := (hchains .outgoing).mp hmem
  obtain ⟨he', htarget⟩ := (hchains .incoming).mp hmem'.1
  rw [he, Option.some.injEq] at he'
  subst he'
  have hloop : e.isLoop = true := by
    change (e.ends.get .outgoing == e.ends.get .incoming) = true
    rw [hsource, htarget, beq_self_eq_true]
  have hplain : e.isLoop = false := by simpa using hmem'.2
  rw [hloop] at hplain
  cases hplain

end Chains

end Store

end PropertyGraph

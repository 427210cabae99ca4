import PropertyGraph.Proofs.Session.Arrivals
import PropertyGraph.Proofs.Session.Departures
import PropertyGraph.Proofs.Session.Editing

/-!
# What a history keeps

A command either brings elements, or takes elements away, or works on views. So a store with a past is
consistent, and the list that its history keeps is that of its edges.
-/

namespace PropertyGraph

namespace Session

open PropertyGraph.Action

variable {s s' : Session} {order : List Nat} {edges : List Edge}

/-! ### What a call can do -/

theorem quiet_modifyWatch (s : Session) (observer : Observer) (f : Watch → Watch) :
    Quiet s (s.withCatalog (·.modifyWatch observer f)) :=
  ⟨rfl, rfl, rfl, rfl, rfl, fun _ _ h => h, fun _ _ h => h⟩

theorem edits_createObserver (view : Option View) (keepsDiff : Bool) (s : Session) :
    (createObserver view keepsDiff).Leads s (Edits s) := by
  rw [createObserver]
  refine .ask_bind (.refl s) fun version _ => ?_
  have hattach : ∀ snapshot : Snapshot, Leads (do
      let s ← get
      let observer : Observer :=
        { serial := s.catalog.fresh, graph := s.store.token, view, keepsDiff }
      change (·.withCatalog fun catalog =>
        { catalog with fresh := catalog.fresh + 1 }.modifyWatch observer
          fun _ => { last := version, snapshot })
      attachObserver observer
      return observer) s (Edits s) := by
    intro snapshot
    refine .get_bind (.change_bind ?_)
    refine .map_answer ?_ _
    refine Edits.quiet_trans ?_ (edits_attachObserver _ _)
    exact ⟨rfl, rfl, rfl, rfl, rfl, fun _ _ h => h, fun _ _ h => h⟩
  cases keepsDiff with
  | false => exact hattach {}
  | true => exact .ask_bind (.refl s) fun snapshot _ => hattach snapshot

theorem edits_poll (observer : Observer) (s : Session) : (poll observer).Leads s (Edits s) := by
  rw [poll]
  refine .ask_bind (.refl s) fun current _ => .get_bind ?_
  dsimp only
  by_cases hseen : current = (s.catalog.watch observer).last
  · rw [if_pos hseen]
    exact .change_bind (Edits.of_quiet (quiet_modifyWatch s _ _))
  · rw [if_neg hseen]
    refine .change_bind ?_
    have hquiet := quiet_modifyWatch s observer fun watch => { watch with last := current }
    by_cases hkeeps : observer.keepsDiff
    · rw [if_pos hkeeps]
      refine .ask_bind (.of_quiet hquiet) fun now _ => .change_bind ?_
      exact (Edits.of_quiet (quiet_modifyWatch _ _ _)).quiet_trans hquiet
    · rw [if_neg hkeeps]
      exact Edits.of_quiet hquiet

theorem gains_addEdge_arrivals (hs : s.Consistent order) (edge : Edge) :
    Gains s (addEdge edge s).2 (s.arrivals (addEdge edge s).2 [edge]) := by
  have hone : (addEdges [edge] s).2 = (addEdge edge s).2 := by
    rw [addEdges, countEach_cons_snd]
    cases (addEdge edge s).1 <;> rfl
  have hgains := gains_addEdges hs [edge]
  rwa [hone] at hgains

/-- A call either brings elements, or takes elements away, or works on views. -/
theorem perform_cases (hs : s.Consistent order) (command : Command) :
    Gains s (command.perform s) (s.arrivals (command.perform s) command.offered) ∨
      Loses s (command.perform s) ∨ Edits s (command.perform s) := by
  cases command with
  | addNode node => exact .inl (gains_addNode node s)
  | addEdge edge => exact .inl (gains_addEdge_arrivals hs edge)
  | addNodes nodes => exact .inl (gains_addNodes nodes s)
  | addEdges edges => exact .inl (gains_addEdges hs edges)
  | addLabel label => exact .inl (gains_addLabel label s)
  | removeLabel label => exact .inl (gains_removeLabel label s)
  | removeLabelId id => exact .inl (gains_removeLabelId id s)
  | removeNode node => exact .inr (.inl (loses_removeNode node s))
  | removeEdge edge => exact .inr (.inl (loses_removeEdge edge s))
  | removeNodes nodes => exact .inr (.inl (loses_removeNodes nodes s))
  | retainNodes keep => exact .inr (.inl (loses_retainNodes keep s))
  | removeEdges edges => exact .inr (.inl (loses_removeEdges edges s))
  | retainEdges keep => exact .inr (.inl (loses_retainEdges keep s))
  | clear => exact .inr (.inl (loses_clear s))
  | clearEdges => exact .inr (.inl (loses_clearEdges s))
  | createView hierarchical => exact .inr (.inr (edits_createView hierarchical s))
  | createViewFrom base => exact .inr (.inr (edits_createViewFrom base s))
  | destroyView view => exact .inr (.inr (edits_destroyView view s))
  | setVisibleView view => exact .inr (.inr (edits_setVisibleView view s))
  | fillView view => exact .inr (.inr (edits_fillView view s))
  | clearView view => exact .inr (.inr (edits_clearView view s))
  | viewAddNode view node => exact .inr (.inr (edits_viewAddNode view node s))
  | viewAddNodes view nodes => exact .inr (.inr (edits_viewAddNodes view nodes s))
  | viewAddEdge view edge => exact .inr (.inr (edits_viewAddEdge view edge s))
  | viewRemoveNode view node => exact .inr (.inr (edits_viewRemoveNode view node s))
  | viewRemoveEdge view edge => exact .inr (.inr (edits_viewRemoveEdge view edge s))
  | viewUnion view other => exact .inr (.inr (edits_viewUnion view other s))
  | viewIntersection view other => exact .inr (.inr (edits_viewIntersection view other s))
  | viewComplement view => exact .inr (.inr (edits_viewComplement view s))
  | setViewInterval view interval => exact .inr (.inr (edits_setViewInterval view interval s))
  | setViewAttribute view name value =>
    exact .inr (.inr (edits_setViewAttribute view name value s))
  | removeViewAttribute view name => exact .inr (.inr (edits_removeViewAttribute view name s))
  | group view node members => exact .inr (.inr (edits_group view node members s))
  | ungroup view node => exact .inr (.inr (edits_ungroup view node s))
  | collapse view node => exact .inr (.inr (edits_collapse view node s))
  | expand view node => exact .inr (.inr (edits_expand view node s))
  | createObserver view keepsDiff => exact .inr (.inr (edits_createObserver view keepsDiff s))
  | poll observer => exact .inr (.inr (edits_poll observer s))
  | detachObserver observer => exact .inr (.inr (edits_detachObserver observer s))
  | registerListener listener => exact .inr (.inr (edits_registerListener listener s))
  | unregisterListener listener => exact .inr (.inr (edits_unregisterListener listener s))
  | setDefaults provider => exact .inr (.inr (edits_setDefaults provider s))

/-! ### Histories -/

/-- A store that was just opened, and that nobody has used a handle with. -/
def opened : Session := { catalog := {}, store := .empty 0 {} }

/-- The listed edges lie in the given slots, and the session is consistent. -/
structure Recorded (s : Session) (order : List Nat) (edges : List Edge) : Prop where
  consistent : s.Consistent order
  edges_eq : order.map s.store.edge? = edges.map some

theorem store_of_open? {token : Nat} {config : Config} {store : Store}
    (hopen : Store.open? token config = .ok store) : store = .empty token config := by
  rw [Store.open?] at hopen
  cases hvalid : config.validate with
  | error fault =>
    rw [hvalid] at hopen
    cases hopen
  | ok done =>
    rw [hvalid] at hopen
    cases hopen
    rfl

theorem node?_empty (token : Nat) (config : Config) (n : Nat) :
    (Store.empty token config).node? n = none := by
  have hget : (Store.empty token config).nodes.get? n = none := Arena.get?_empty
  rw [Store.node?, hget, Option.map_none]

theorem edge?_empty (token : Nat) (config : Config) (i : Nat) :
    (Store.empty token config).edge? i = none := by
  have hget : (Store.empty token config).edges.get? i = none := Arena.get?_empty
  rw [Store.edge?, hget, Option.map_none]

theorem consistent_opened {token : Nat} {config : Config} {store : Store} {catalog : Catalog}
    (hopen : Store.open? token config = .ok store) :
    ({ catalog, store } : Session).Consistent [] := by
  cases store_of_open? hopen
  have hsound : (Store.empty token config).Sound [] := by
    refine Store.sound_nil (s := Store.empty token config) (Arena.valid_inBlocks _)
      (Arena.valid_inBlocks _) LabelRegistry.sound_empty fun n N hN => ?_
    cases (Option.map_eq_none_iff.mp (node?_empty token config n)).symm.trans hN
  refine ⟨hsound, fun n node hn => ?_, fun i edge hi => ?_, Arena.valid_linear, fun slot r hr => ?_⟩
  · rw [node?_empty] at hn
    cases hn
  · rw [edge?_empty] at hi
    cases hi
  · change ({ growth := .linear } : Arena ViewRecord).get? slot = some r at hr
    rw [Arena.get?_empty] at hr
    cases hr

theorem filter_eq_of_sublist {l l' : List Nat} {p : Nat → Bool} (hsub : l'.Sublist l)
    (hnodup : l.Nodup) (hp : ∀ x ∈ l, p x = true ↔ x ∈ l') : l.filter p = l' := by
  have hall : l'.filter p = l' :=
    List.filter_eq_self.mpr fun x hx => (hp x (hsub.subset hx)).mpr hx
  have hperm : l'.Perm (l.filter p) := by
    refine (List.perm_ext_iff_of_nodup (hnodup.sublist hsub) (hnodup.filter p)).mpr fun x => ?_
    rw [List.mem_filter]
    exact ⟨fun hx => ⟨hsub.subset hx, (hp x (hsub.subset hx)).mpr hx⟩, fun hx => (hp x hx.1).mp hx.2⟩
  have hsub' := hsub.filter p
  rw [hall] at hsub'
  exact (hsub'.eq_of_length hperm.length_eq).symm

namespace Recorded

theorem mem_iff (h : s.Recorded order edges) (edge : Edge) :
    edge ∈ edges ↔ s.containsEdge edge = true := by
  rw [h.consistent.containsEdge_iff]
  constructor
  · intro hmem
    have hsome : some edge ∈ order.map s.store.edge? := h.edges_eq ▸ List.mem_map_of_mem hmem
    obtain ⟨i, _, hi⟩ := List.mem_map.mp hsome
    exact ⟨i, hi⟩
  · rintro ⟨i, hi⟩
    have hmem : s.store.edge? i ∈ edges.map some :=
      h.edges_eq ▸ List.mem_map_of_mem (h.consistent.sound.mem_of_edge? hi)
    rw [hi] at hmem
    simpa using hmem

theorem of_gains {came : List Edge} (h : s.Recorded order edges) (hgains : Gains s s' came) :
    ∃ order', s'.Recorded order' (came ++ edges.filter s'.containsEdge) := by
  obtain ⟨_, _, hkept, fresh, hs', hfresh⟩ := hgains order h.consistent
  refine ⟨fresh ++ order, hs', ?_⟩
  have hall : edges.filter s'.containsEdge = edges :=
    List.filter_eq_self.mpr fun edge hedge =>
      (hgains.containsEdge_iff h.consistent).mpr (.inr ((h.mem_iff edge).mp hedge))
  have hsame : order.map s'.store.edge? = order.map s.store.edge? := by
    refine List.map_congr_left fun i hi => ?_
    obtain ⟨x, hx⟩ := Option.isSome_iff_exists.mp (h.consistent.sound.mem_iff_fixed?.mp hi)
    rw [Store.edge?_eq, Store.edge?_eq, hx, hkept i x hx]
  rw [hall, List.map_append, List.map_append, hfresh, hsame, h.edges_eq]

theorem of_loses (h : s.Recorded order edges) (hloses : Loses s s') :
    ∃ order', s'.Recorded order' (edges.filter s'.containsEdge) := by
  obtain ⟨_, hedge, _, order', hsub, hs'⟩ := hloses order h.consistent
  refine ⟨order', hs', ?_⟩
  have hkept : ∀ i ∈ order', s'.store.edge? i = s.store.edge? i := by
    intro i hi
    obtain ⟨x, hx⟩ := Option.isSome_iff_exists.mp (hs'.sound.mem_iff_fixed?.mp hi)
    rw [Store.edge?_eq, Store.edge?_eq, hx, hedge i x hx]
  have horder : order.filter (fun i => (s.store.edge? i).any s'.containsEdge) = order' := by
    refine filter_eq_of_sublist hsub h.consistent.sound.nodup fun i hi => ?_
    obtain ⟨x, hx⟩ := Option.isSome_iff_exists.mp (h.consistent.sound.mem_iff_fixed?.mp hi)
    have hedge? : s.store.edge? i = some x.1 := by rw [Store.edge?_eq, hx]; rfl
    rw [hedge?, Option.any_some, hs'.containsEdge_iff]
    constructor
    · rintro ⟨j, hj⟩
      have hmem := hs'.sound.mem_of_edge? hj
      rw [hkept j hmem] at hj
      rwa [← h.consistent.edge_unique hj hedge?]
    · intro hmem
      exact ⟨i, (hkept i hmem).trans hedge?⟩
  calc order'.map s'.store.edge?
      = order'.map s.store.edge? := List.map_congr_left hkept
    _ = (order.map s.store.edge?).filter (·.any s'.containsEdge) := by
        rw [List.filter_map, ← horder]
        rfl
    _ = (edges.filter s'.containsEdge).map some := by
        rw [h.edges_eq, List.filter_map]
        rfl

theorem of_edits (h : s.Recorded order edges) (hedits : Edits s s') :
    s'.Recorded order edges ∧ edges.filter s'.containsEdge = edges := by
  obtain ⟨_, hfixed, _, hs'⟩ := hedits order h.consistent
  have hrecorded : s'.Recorded order edges := by
    refine ⟨hs', ?_⟩
    rw [← h.edges_eq]
    exact List.map_congr_left fun i _ => by rw [Store.edge?_eq, hfixed, Store.edge?_eq]
  exact ⟨hrecorded, List.filter_eq_self.mpr fun edge hedge => (hrecorded.mem_iff edge).mp hedge⟩

end Recorded

theorem Recorded.ledger_of_edits (h : s.Recorded order edges) {command : Command}
    (hedits : Edits s (command.perform s)) : s.ledger command edges = edges := by
  obtain ⟨h', hall⟩ := h.of_edits hedits
  rw [ledger, hall, arrivals_eq_nil fun edge hedge => ?_]
  · rfl
  · rwa [← h'.mem_iff, h.mem_iff] at hedge

theorem Recorded.performed (h : s.Recorded order edges) (command : Command) :
    ∃ order', (command.perform s).Recorded order' (s.ledger command edges) := by
  rcases perform_cases h.consistent command with hgains | hloses | hedits
  · exact h.of_gains hgains
  · obtain ⟨order', h'⟩ := h.of_loses hloses
    refine ⟨order', ?_⟩
    rw [ledger, arrivals_eq_nil fun edge hedge => ?_]
    · exact h'
    · have hmem := (h'.mem_iff edge).mpr hedge
      exact (h.mem_iff edge).mp (List.mem_filter.mp hmem).1
  · refine ⟨order, ?_⟩
    rw [h.ledger_of_edits hedits]
    exact (h.of_edits hedits).1

theorem Recorded.ledger_addEdge (h : s.Recorded order edges) {edge : Edge}
    (hdone : (addEdge edge s).1 = .ok true) : s.ledger (.addEdge edge) edges = edge :: edges := by
  have hall : edges.filter ((Command.addEdge edge).perform s).containsEdge = edges := by
    have hgains := gains_addEdge_arrivals h.consistent edge
    exact List.filter_eq_self.mpr fun other hother =>
      (hgains.containsEdge_iff h.consistent).mpr (.inr ((h.mem_iff other).mp hother))
  have harrived : s.arrivals ((Command.addEdge edge).perform s) [edge] = [edge] := by
    rcases gains_addEdge h.consistent edge with ⟨_, hthere⟩ | ⟨_, hnew, hgains⟩
    · rcases addEdge_cases edge s with ⟨fault, hadd⟩ | ⟨hadd, _⟩ | ⟨source, target, hhome, _⟩
      · rw [hadd] at hdone
        cases hdone
      · rw [hadd] at hdone
        cases hdone
      · have hthere := hthere true hdone
        rw [containsEdge, hhome] at hthere
        cases hthere
    · have hstored : (addEdge edge s).2.containsEdge edge = true :=
        (hgains.containsEdge_iff h.consistent).mpr (.inl (List.mem_singleton_self edge))
      simp [arrivals, Command.perform, Command.act, hstored, hnew, List.eraseDups_cons]
  rw [ledger, Command.offered, harrived, hall]
  rfl

theorem History.recorded (h : History s edges) : ∃ order, s.Recorded order edges := by
  induction h with
  | opened token config store catalog hopen => exact ⟨[], consistent_opened hopen, rfl⟩
  | performed s edges command _ ih =>
    obtain ⟨order, h⟩ := ih
    exact h.performed command
  | elsewhere s edges catalog _ hnodes hedges ih =>
    obtain ⟨order, h⟩ := ih
    have hquiet : Quiet s { s with catalog } := ⟨rfl, rfl, rfl, rfl, rfl, hnodes, hedges⟩
    exact ⟨order, hquiet.consistent h.consistent, h.edges_eq⟩

theorem History.edited (h : History s edges) (command : Command)
    (hedits : Edits s (command.perform s)) : History (command.perform s) edges := by
  obtain ⟨order, hrecorded⟩ := h.recorded
  have hafter := h.performed s edges command
  rwa [hrecorded.ledger_of_edits hedits] at hafter

end Session

end PropertyGraph

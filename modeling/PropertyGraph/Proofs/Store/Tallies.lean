import PropertyGraph.Proofs.Store.Chains

/-!
# Counters and tallies

A tally counts the listed edges that pass a test, reading each edge as it is stored. The counters of
a store are tallies that it keeps up to date. None of the tests looks at the links of an edge, so
hooking in and out changes no tally; only an edge that comes, goes or changes its flag does, by the
difference that this one edge makes.
-/

namespace PropertyGraph

/-! ### Tests -/

namespace EdgeSlot

/-- The edge as it is without its place on its chains. -/
def unlinked (e : EdgeSlot) : EdgeSlot := { e with links := .both {} }

def endsAt (p : Phase) (n : Nat) (e : EdgeSlot) : Bool := e.ends.get p == n

def isMutualFrom (n : Nat) (e : EdgeSlot) : Bool := e.isMutual && e.source == n

def hasLabel (label : Nat) (e : EdgeSlot) : Bool := e.label == label

/-- Whether the edge is the half of a mutual pair whose source lies in the higher slot. -/
def isMutualDown (e : EdgeSlot) : Bool := e.isMutual && decide (e.target < e.source)

/-- The one edge runs between the ends of the other, with the same label, but the other way. -/
def Reverses (f e : EdgeSlot) : Prop :=
  f.source = e.target ∧ f.target = e.source ∧ f.label = e.label ∧ e.source ≠ e.target

theorem Reverses.symm {e f : EdgeSlot} (h : f.Reverses e) : e.Reverses f :=
  ⟨h.2.1.symm, h.1.symm, h.2.2.1.symm, fun heq => h.2.2.2 (by rw [← h.2.1, ← heq, h.1])⟩

@[simp]
theorem unlinked_relink {e : EdgeSlot} {p : Phase} {f : Link → Link} :
    (e.relink p f).unlinked = e.unlinked := rfl

end EdgeSlot

namespace Store

variable {s s' : Store} {slot reverse i n : Nat} {p q : Phase} {e e' x : EdgeSlot} {order : List Nat}
  {P : EdgeSlot → Bool} {paired : Bool}

def plain? (s : Store) (i : Nat) : Option EdgeSlot := (s.edges.get? i).map EdgeSlot.unlinked

def tally (s : Store) (order : List Nat) (P : EdgeSlot → Bool) : Nat :=
  order.countP fun i => (s.plain? i).any P

/-! ### How tallies change -/

theorem tally_congr (h : ∀ i ∈ order, s'.plain? i = s.plain? i) :
    s'.tally order P = s.tally order P :=
  List.countP_congr fun i hi => by rw [h i hi]

theorem tally_cons (hslot : s.plain? slot = some e) :
    s.tally (slot :: order) P = s.tally order P + (P e).toNat := by
  rw [tally, tally, List.countP_cons, hslot]
  cases hP : P e <;> simp [hP]

theorem tally_erase (hmem : slot ∈ order) (hslot : s.plain? slot = some e) :
    s.tally (order.erase slot) P + (P e).toNat = s.tally order P := by
  rw [← tally_cons hslot]
  exact (List.perm_cons_erase hmem).symm.countP_eq _

theorem tally_update (hnodup : order.Nodup) (hmem : slot ∈ order) (hslot : s.plain? slot = some e)
    (hslot' : s'.plain? slot = some e') (hrest : ∀ i ∈ order, i ≠ slot → s'.plain? i = s.plain? i) :
    s'.tally order P + (P e).toNat = s.tally order P + (P e').toNat := by
  have hothers : s'.tally (order.erase slot) P = s.tally (order.erase slot) P := by
    refine tally_congr fun i hi => ?_
    obtain ⟨hne, hi⟩ := hnodup.mem_erase_iff.mp hi
    exact hrest i hi hne
  rw [← tally_erase hmem hslot, ← tally_erase hmem hslot', hothers]
  omega

theorem tally_pos (hmem : i ∈ order) (hi : s.plain? i = some e) (hP : P e = true) :
    0 < s.tally order P :=
  List.countP_pos_iff.mpr ⟨i, hmem, by rw [hi]; exact hP⟩

theorem tally_mono {Q : EdgeSlot → Bool} (h : ∀ e, P e = true → Q e = true) :
    s.tally order P ≤ s.tally order Q := by
  refine List.countP_mono_left fun i _ hi => ?_
  cases hx : s.plain? i with
  | none =>
    rw [hx] at hi
    cases hi
  | some x =>
    rw [hx] at hi
    exact h x hi

/-! ### What hooking does to edges as they are without their links -/

@[simp]
theorem plain?_hook : (s.hook slot e p).plain? i = s.plain? i := by
  rw [plain?, edgeGet?_hook, Option.map_map]
  rfl

@[simp]
theorem plain?_unhook : (s.unhook e p).plain? i = s.plain? i := by
  rw [plain?, edgeGet?_unhook, Option.map_map]
  rfl

/-! ### Degrees -/

/-- The degrees of a phase count the listed edges. -/
def Degreed (s : Store) (p : Phase) (order : List Nat) : Prop :=
  ∀ n N, s.nodes.get? n = some N → N.degrees.get p = s.tally order (·.endsAt p n)

namespace Degreed

theorem congr (h : s.Degreed p order) (hedges : ∀ i ∈ order, s'.plain? i = s.plain? i)
    (hnodes : ∀ n N', s'.nodes.get? n = some N' →
      ∃ N, s.nodes.get? n = some N ∧ N'.degrees.get p = N.degrees.get p) : s'.Degreed p order := by
  intro n N' hN'
  obtain ⟨N, hN, hdegree⟩ := hnodes n N' hN'
  rw [hdegree, tally_congr hedges]
  exact h n N hN

theorem hook (h : s.Degreed p order) (hslot : s.plain? slot = some x) (hends : x.ends = e.ends) :
    (s.hook slot e p).Degreed p (slot :: order) := by
  intro n N' hN'
  rw [nodeGet?_hook, Option.map_eq_some_iff] at hN'
  obtain ⟨N, hN, rfl⟩ := hN'
  have hold : (s.hook slot e p).tally order (·.endsAt p n) = s.tally order (·.endsAt p n) :=
    tally_congr fun _ _ => plain?_hook
  rw [tally_cons (e := x) (plain?_hook.trans hslot), hold, ← h n N hN, EdgeSlot.endsAt, hends]
  by_cases heq : n = e.ends.get p
  · rw [if_pos heq, heq, beq_self_eq_true, NodeSlot.raiseDegree, Sides.get_modify_self]
    rfl
  · rw [if_neg heq, beq_false_of_ne (Ne.symm heq)]
    rfl

theorem unhook (h : s.Degreed p order) (hmem : slot ∈ order) (hslot : s.plain? slot = some x)
    (hends : x.ends = e.ends) : (s.unhook e p).Degreed p (order.erase slot) := by
  intro n N' hN'
  rw [nodeGet?_unhook, Option.map_eq_some_iff] at hN'
  obtain ⟨N, hN, rfl⟩ := hN'
  have hold : (s.unhook e p).tally (order.erase slot) (·.endsAt p n) =
      s.tally (order.erase slot) (·.endsAt p n) :=
    tally_congr fun _ _ => plain?_unhook
  have herase := tally_erase (P := (·.endsAt p n)) hmem hslot
  rw [← h n N hN, EdgeSlot.endsAt, hends] at herase
  rw [hold]
  by_cases heq : n = e.ends.get p
  · rw [heq, beq_self_eq_true, Bool.toNat_true] at herase
    have hdegree : ∀ M : NodeSlot, M.degrees = N.degrees →
        (M.lowerDegree p).degrees.get p = N.degrees.get p - 1 := by
      intro M hM
      rw [NodeSlot.lowerDegree, Sides.get_modify_self, hM]
    rw [if_pos heq, hdegree _ (by split <;> rfl), heq]
    omega
  · rw [beq_false_of_ne (Ne.symm heq), Bool.toNat_false] at herase
    rw [if_neg heq]
    omega

theorem hook_of_ne (h : s.Degreed q order) (hne : q ≠ p) : (s.hook slot e p).Degreed q order := by
  refine h.congr (fun _ _ => plain?_hook) fun n N' hN' => ?_
  rw [nodeGet?_hook, Option.map_eq_some_iff] at hN'
  obtain ⟨N, hN, rfl⟩ := hN'
  refine ⟨N, hN, ?_⟩
  split
  · exact Sides.get_modify_of_ne hne
  · rfl

theorem unhook_of_ne (h : s.Degreed q order) (hne : q ≠ p) : (s.unhook e p).Degreed q order := by
  refine h.congr (fun _ _ => plain?_unhook) fun n N' hN' => ?_
  rw [nodeGet?_unhook, Option.map_eq_some_iff] at hN'
  obtain ⟨N, hN, rfl⟩ := hN'
  refine ⟨N, hN, ?_⟩
  split
  · rw [NodeSlot.lowerDegree, Sides.get_modify_of_ne hne]
    split <;> rfl
  · rfl

end Degreed

end Store

end PropertyGraph

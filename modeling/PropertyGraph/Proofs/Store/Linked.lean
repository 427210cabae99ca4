import Mathlib.Tactic
import PropertyGraph.Store.EdgeTable

/-!
# Doubly linked chains

A chain is threaded through slots that hold a link each. Here the links are a function of the slot,
so the same chain theory serves the outgoing and the incoming chains of a store. Both ways of editing
a chain, putting a slot in front and taking one out of the middle, touch only the neighbours of that
slot, which is why chains that have no slot in common do not disturb each other.
-/

namespace PropertyGraph

/-- From `start` the links lead through the listed slots and then to nothing, and back along them to
`prev`. -/
def Linked (links : Nat → Option Link) : Option Nat → Option Nat → List Nat → Prop
  | _, start, [] => start = none
  | prev, start, slot :: rest =>
    start = some slot ∧
      ∃ link, links slot = some link ∧ link.prev = prev ∧ Linked links (some slot) link.next rest

/-- The links after a slot was put in front of `head`. -/
def linksPushed (links : Nat → Option Link) (slot : Nat) (head : Option Nat) (i : Nat) :
    Option Link :=
  (links i).map fun link =>
    { next := if i = slot then head else link.next
      prev := if head = some i then some slot else link.prev }

/-- The links after the neighbours of a link became neighbours of each other. -/
def linksSpliced (links : Nat → Option Link) (gone : Link) (i : Nat) : Option Link :=
  (links i).map fun link =>
    { next := if gone.prev = some i then gone.next else link.next
      prev := if gone.next = some i then gone.prev else link.prev }

theorem linksPushed_of_ne {links : Nat → Option Link} {slot i : Nat} {head : Option Nat}
    (hslot : i ≠ slot) (hhead : head ≠ some i) : linksPushed links slot head i = links i := by
  rw [linksPushed]
  simp only [if_neg hslot, if_neg hhead]
  exact Option.map_id'

theorem linksSpliced_of_ne {links : Nat → Option Link} {gone : Link} {i : Nat}
    (hprev : gone.prev ≠ some i) (hnext : gone.next ≠ some i) :
    linksSpliced links gone i = links i := by
  rw [linksSpliced]
  simp only [if_neg hprev, if_neg hnext]
  exact Option.map_id'

namespace Linked

variable {links links' : Nat → Option Link} {prev start : Option Nat} {slot : Nat} {link : Link}
  {l l₁ l₂ : List Nat}

theorem congr (h : Linked links prev start l) (hsame : ∀ i ∈ l, links' i = links i) :
    Linked links' prev start l := by
  induction l generalizing prev start with
  | nil => exact h
  | cons i rest ih =>
    obtain ⟨hstart, link, hlink, hprev, hrest⟩ := h
    refine ⟨hstart, link, ?_, hprev, ih hrest fun j hj => hsame j (List.mem_cons_of_mem _ hj)⟩
    rw [hsame i (by simp), hlink]

theorem start_eq_head? (h : Linked links prev start l) : start = l.head? := by
  cases l with
  | nil => exact h
  | cons i rest => exact h.1

theorem next_mem (h : Linked links prev start l) (hmem : slot ∈ l) (hlink : links slot = some link)
    {next : Nat} (hnext : link.next = some next) : next ∈ l := by
  induction l generalizing prev start with
  | nil => cases hmem
  | cons i rest ih =>
    obtain ⟨_, link', hlink', _, hrest⟩ := h
    rcases List.mem_cons.mp hmem with rfl | hmem
    · rw [hlink', Option.some.injEq] at hlink
      subst hlink
      have hhead := hrest.start_eq_head?
      rw [hnext] at hhead
      exact List.mem_cons_of_mem _ (List.mem_of_head? hhead.symm)
    · exact List.mem_cons_of_mem _ (ih hrest hmem)

theorem prev_mem (h : Linked links prev start l) (hmem : slot ∈ l) (hlink : links slot = some link) :
    link.prev = prev ∨ ∃ i ∈ l, link.prev = some i := by
  induction l generalizing prev start with
  | nil => cases hmem
  | cons i rest ih =>
    obtain ⟨_, link', hlink', hprev, hrest⟩ := h
    rcases List.mem_cons.mp hmem with rfl | hmem
    · rw [hlink', Option.some.injEq] at hlink
      subst hlink
      exact .inl hprev
    · rcases ih hrest hmem with heq | ⟨j, hj, heq⟩
      · exact .inr ⟨i, by simp, heq⟩
      · exact .inr ⟨j, List.mem_cons_of_mem _ hj, heq⟩

/-! ### Putting a slot in front -/

theorem push (h : Linked links none start l) (hnodup : (slot :: l).Nodup)
    (hlink : links slot = some link) (hfresh : link.prev = none) :
    Linked (linksPushed links slot start) none (some slot) (slot :: l) := by
  obtain ⟨hslot, hrest⟩ := List.nodup_cons.mp hnodup
  have hstart : start ≠ some slot := by
    intro heq
    rw [h.start_eq_head?] at heq
    exact hslot (List.mem_of_head? heq)
  refine ⟨rfl, { next := start, prev := none }, ?_, rfl, ?_⟩
  · simp [linksPushed, hlink, hstart, hfresh]
  · cases l with
    | nil => exact h
    | cons i rest =>
      obtain ⟨rfl, link', hlink', hprev, htail⟩ := h
      have hi : i ≠ slot := fun heq => hslot (by simp [heq])
      refine ⟨rfl, { next := link'.next, prev := some slot }, ?_, rfl, htail.congr fun j hj => ?_⟩
      · simp [linksPushed, hlink', hi]
      · have hjslot : j ≠ slot := fun heq => hslot (by simp [← heq, hj])
        have hij : i ≠ j := fun heq => (List.nodup_cons.mp hrest).1 (heq ▸ hj)
        cases hj' : links j <;> simp [linksPushed, hj', hjslot, hij]

/-! ### Taking a slot out

Before the slot stands either the slot that precedes the whole segment or one of the segment, so the
induction runs along the part in front of it. -/

theorem splice_head (h : Linked links prev start (slot :: l)) (hnodup : (slot :: l).Nodup)
    (hlink : links slot = some link) (hprev : ∀ i ∈ l, prev ≠ some i) :
    Linked (linksSpliced links link) prev link.next l := by
  obtain ⟨_, link', hlink', hback, hrest⟩ := h
  rw [hlink', Option.some.injEq] at hlink
  subst hlink
  cases l with
  | nil => exact hrest
  | cons i rest =>
    obtain ⟨hnext, link₂, hlink₂, _, htail⟩ := hrest
    have hi := hprev i List.mem_cons_self
    refine ⟨hnext, { next := link₂.next, prev := prev }, ?_, rfl, htail.congr fun j hj => ?_⟩
    · simp [linksSpliced, hlink₂, hback, hnext, hi]
    · have hj' := hprev j (List.mem_cons_of_mem _ hj)
      have hij : i ≠ j := by
        rintro rfl
        simp [hj] at hnodup
      cases hlinkj : links j <;> simp [linksSpliced, hlinkj, hback, hnext, hj', hij]

theorem splice (h : Linked links prev start (l₁ ++ slot :: l₂))
    (hnodup : (l₁ ++ slot :: l₂).Nodup) (hlink : links slot = some link)
    (hprev : ∀ i, prev = some i → i ∉ l₁ ++ slot :: l₂) :
    Linked (linksSpliced links link) prev (if l₁ = [] then link.next else start) (l₁ ++ l₂) := by
  induction l₁ generalizing prev start with
  | nil =>
    rw [if_pos rfl]
    exact splice_head h hnodup hlink fun i hi heq => hprev i heq (List.mem_cons_of_mem _ hi)
  | cons i rest ih =>
    obtain ⟨hstart, link', hlink', hback, hrest⟩ := h
    obtain ⟨hi, hnodup'⟩ := List.nodup_cons.mp hnodup
    have hmem : slot ∈ rest ++ slot :: l₂ := by simp
    have hrest' := ih hrest hnodup' (by rintro j ⟨⟩; exact hi)
    have hnext : link.next ≠ some i := by
      intro heq
      exact hi (hrest.next_mem hmem hlink heq)
    rw [if_neg (List.cons_ne_nil i rest)]
    by_cases hempty : rest = []
    · subst hempty
      obtain ⟨_, link₂, hlink₂, hback₂, _⟩ := hrest
      rw [hlink, Option.some.injEq] at hlink₂
      subst hlink₂
      refine ⟨hstart, { next := link.next, prev := prev }, ?_, rfl, hrest'⟩
      simp [linksSpliced, hlink', hback₂, hnext, hback]
    · rw [if_neg hempty] at hrest'
      have hfar : link.prev ≠ some i := by
        obtain ⟨j, rest', rfl⟩ := List.exists_cons_of_ne_nil hempty
        obtain ⟨_, link₂, _, _, htail⟩ := hrest
        intro heq
        have hmem' : slot ∈ rest' ++ slot :: l₂ := by simp
        rcases htail.prev_mem hmem' hlink with hj | ⟨k, hk, hj⟩
        · rw [heq, Option.some.injEq] at hj
          exact hi (by simp [hj])
        · rw [heq, Option.some.injEq] at hj
          exact hi (by rw [hj]; exact List.mem_cons_of_mem _ hk)
      refine ⟨hstart, link', ?_, hback, hrest'⟩
      simp [linksSpliced, hlink', hfar, hnext]

theorem prev_eq_none_iff (h : Linked links none start (l₁ ++ slot :: l₂))
    (hnodup : (l₁ ++ slot :: l₂).Nodup) (hlink : links slot = some link) :
    link.prev = none ↔ l₁ = [] := by
  cases l₁ with
  | nil =>
    obtain ⟨_, link', hlink', hback, _⟩ := h
    rw [hlink', Option.some.injEq] at hlink
    simp [← hlink, hback]
  | cons i rest =>
    obtain ⟨_, link', hlink', _, hrest⟩ := h
    have hmem : slot ∈ rest ++ slot :: l₂ := by simp
    rcases hrest.prev_mem hmem hlink with heq | ⟨j, _, heq⟩ <;> simp [heq]

theorem erase (h : Linked links none start l) (hnodup : l.Nodup) (hmem : slot ∈ l)
    (hlink : links slot = some link) :
    Linked (linksSpliced links link) none (if link.prev = none then link.next else start)
      (l.erase slot) := by
  obtain ⟨l₁, l₂, rfl⟩ := List.append_of_mem hmem
  have hnot : slot ∉ l₁ := by
    intro hin
    exact (List.nodup_append.mp hnodup).2.2 slot hin slot (by simp) rfl
  have hspliced := h.splice hnodup hlink (by simp)
  rw [List.erase_append_right _ hnot, List.erase_cons_head]
  simpa only [h.prev_eq_none_iff hnodup hlink] using hspliced

end Linked

end PropertyGraph

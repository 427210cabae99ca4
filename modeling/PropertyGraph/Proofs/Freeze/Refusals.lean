import PropertyGraph.Proofs.Graph.Locking
import PropertyGraph.Proofs.Lock.Exclusion
import PropertyGraph.Proofs.Observing.PollRecords

/-!
# What is refused to a caller who reads

Every call that changes a graph, its views or its observers asks for the write hold, or for a proof of
it, before it touches anything. A caller who holds the graph for reading only is refused each time, and
everything stays as it was, the lock included.
-/

namespace PropertyGraph

variable {space : GraphSpace} {g : Graph} {α : Type}

/-- The caller holds the graph for reading and does not write it. -/
def GraphSpace.Reading (space : GraphSpace) (g : Graph) : Prop :=
  ∃ shared, space.shared? g = some shared ∧ shared.lock.enabled = true ∧
    shared.lock.readHolds caller ≠ 0 ∧ shared.lock.writer ≠ some caller

/-- The call is refused with a fault of the kind, and everything stays as it was. -/
def GraphAction.Refused (a : GraphAction α) (space : GraphSpace) (kind : FaultKind) : Prop :=
  ∃ fault, a space = (.error fault, space) ∧ fault.kind = kind

/-- The view through which an iterator walks. Such an iterator is read-only. -/
def Iterator.filter : Iterator → Option View
  | .nodes it => it.filter
  | .edges it => it.filter

/-- What would change a graph is refused and changes nothing at all. -/
structure GraphSpace.Frozen (space : GraphSpace) (g : Graph) : Prop where
  /-- The calls on the graph and on its subgraphs, all but the questions and the polls. -/
  call : ∀ command, command.mode = .write → (g.call command).Refused space .concurrency
  /-- The write hold itself. -/
  enter : (g.enter .write).Refused space .concurrency
  create : ∀ view keepsDiff, (Observer.create g view keepsDiff).Refused space .concurrency
  /-- An observer that was destroyed before is at fault itself. -/
  destroy : ∀ o : Observer, o.graphHandle = g → o.destroy.Refused space
    (if (space.catalog.watch o).destroyed then .usage else .concurrency)
  /-- So is an iterator through a view. -/
  remove : ∀ it : Iterator, it.guard.graph = g → ∃ fault,
    it.remove space = ((.error fault, it), space) ∧
      fault.kind = if it.filter.isSome then .usage else .concurrency

theorem Command.mode_cases (command : Command) :
    command.mode = .write ∨ ∃ o, command = .poll o := by
  cases command with
  | poll o => exact .inr ⟨o, rfl⟩
  | _ => exact .inl rfl

namespace GraphSpace

/-! ### Refusals -/

theorem Reading.during_write (h : space.Reading g) (action : Action α) :
    g.during .write action space = (.error .readHeld, space) := by
  obtain ⟨shared, hshared, henabled, hreads, hwriter⟩ := h
  exact during_of_refused hshared (Lock.enter_of_readHolds_ne_zero henabled hwriter hreads) action

theorem Reading.call (h : space.Reading g) {command : Command} (hmode : command.mode = .write) :
    g.call command space = (.error .readHeld, space) := by
  rw [Graph.call, hmode]
  exact h.during_write command.act

theorem Reading.enter (h : space.Reading g) : g.enter .write space = (.error .readHeld, space) := by
  obtain ⟨shared, hshared, henabled, hreads, hwriter⟩ := h
  rw [enter_apply, hshared]
  simp only [Lock.enter_of_readHolds_ne_zero henabled hwriter hreads]

theorem Reading.destroy {o : Observer} (h : space.Reading o.graphHandle)
    (hlive : (space.catalog.watch o).destroyed = false) :
    o.destroy space = (.error .readHeld, space) := by
  obtain ⟨shared, hshared, _⟩ := id h
  have hrefused : o.detach space = (.error .readHeld, space) := h.during_write _
  rw [destroy_apply, hlive, if_neg Bool.false_ne_true, hshared, Option.isSome_some, if_pos rfl,
    hrefused]

theorem checkWriter_apply (g : Graph) (space : GraphSpace) :
    g.checkWriter space = match space.shared? g with
      | none => (.error .observedGraphGone, space)
      | some shared => (shared.lock.checkWriter caller, space) := by
  unfold Graph.checkWriter
  rw [bind_apply, Graph.shared]
  cases space.shared? g <;> rfl

theorem Reading.checkWriter (h : space.Reading g) :
    g.checkWriter space = (.error .writeNotHeld, space) := by
  obtain ⟨shared, hshared, henabled, _, hwriter⟩ := h
  rw [checkWriter_apply, hshared]
  simp [Lock.checkWriter, Lock.isWriter, henabled, hwriter]

end GraphSpace

/-! ### Iterators that remove -/

open GraphSpace

namespace Iterator

theorem remove_nodes (it : NodeIterator) (space : GraphSpace) : (Iterator.nodes it).remove space =
    (((it.remove space).1.1, .nodes (it.remove space).1.2), (it.remove space).2) := rfl

theorem remove_edges (it : EdgeIterator) (space : GraphSpace) : (Iterator.edges it).remove space =
    (((it.remove space).1.1, .edges (it.remove space).1.2), (it.remove space).2) := rfl

/-- An iterator through a view removes nothing. Any other removes what came last, if something did,
for the writer only. -/
theorem remove_cases (it : Iterator) (space : GraphSpace) :
    (it.filter.isSome = true ∧ ∃ fault, fault.kind = .usage ∧
      it.remove space = ((.error fault, it), space)) ∨
    (it.filter.isSome = false ∧ ∃ fault, it.guard.graph.checkWriter space = (.error fault, space) ∧
      it.remove space = ((.error fault, it), space)) ∨
    it.guard.graph.checkWriter space = (.ok (), space) ∧ ((it.remove space).2 = space ∨
      ∃ command : Command,
        (it.remove space).2 = (it.guard.graph.run command.act space).2) := by
  have hspace : ∀ g : Graph, g.checkWriter space = ((g.checkWriter space).1, space) := by
    intro g
    rw [checkWriter_apply]
    cases space.shared? g <;> rfl
  cases it with
  | nodes it =>
    rw [remove_nodes, filter, guard, NodeIterator.remove, hspace]
    cases it.filter with
    | some view => exact .inl ⟨rfl, _, rfl, rfl⟩
    | none =>
      cases (it.guard.graph.checkWriter space).1 with
      | error fault => exact .inr (.inl ⟨rfl, fault, rfl, rfl⟩)
      | ok _ =>
        refine .inr (.inr ⟨rfl, ?_⟩)
        cases it.current with
        | none => exact .inl rfl
        | some node => exact .inr ⟨.removeNode node, rfl⟩
  | edges it =>
    rw [remove_edges, filter, guard, EdgeIterator.remove, hspace]
    cases it.filter with
    | some view => exact .inl ⟨rfl, _, rfl, rfl⟩
    | none =>
      cases (it.guard.graph.checkWriter space).1 with
      | error fault => exact .inr (.inl ⟨rfl, fault, rfl, rfl⟩)
      | ok _ =>
        refine .inr (.inr ⟨rfl, ?_⟩)
        cases it.current with
        | none => exact .inl rfl
        | some edge => exact .inr ⟨.removeEdge edge, rfl⟩

end Iterator

theorem GraphSpace.Reading.frozen (h : space.Reading g) : space.Frozen g where
  call := fun _ hmode => ⟨_, h.call hmode, rfl⟩
  enter := ⟨_, h.enter, rfl⟩
  create := fun _ _ => ⟨_, h.during_write _, rfl⟩
  destroy := by
    rintro o rfl
    cases hdestroyed : (space.catalog.watch o).destroyed with
    | true => exact ⟨_, (destroy_apply o space).trans (if_pos hdestroyed), rfl⟩
    | false => exact ⟨_, h.destroy hdestroyed, rfl⟩
  remove := by
    rintro it rfl
    rcases it.remove_cases space with
      ⟨hview, fault, hkind, hrefused⟩ | ⟨hview, fault, hcheck, hrefused⟩ | ⟨hcheck, _⟩
    · exact ⟨fault, hrefused, by rw [hview, hkind, if_pos rfl]⟩
    · rw [h.checkWriter] at hcheck
      cases hcheck
      exact ⟨_, hrefused, by rw [hview, if_neg Bool.false_ne_true]; rfl⟩
    · rw [h.checkWriter] at hcheck
      cases hcheck

end PropertyGraph

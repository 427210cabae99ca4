import PropertyGraph.Store.Chain

/-!
# Sessions

A session is a store at work: the store together with the catalog, which it reads and writes for the
handles it is given. Questions are functions of the session; changes are `Action`s. A refused action
keeps what it has done so far, so a call that applies several changes may stop midway.
-/

namespace PropertyGraph

/-- A store together with the catalog of handles. -/
structure Session where
  catalog : Catalog
  store : Store

/-- A change of a session, or a refusal. -/
abbrev Action := ExceptT Fault (StateM Session)

def Action.ask {α : Type} (question : Session → Except Fault α) : Action α :=
  fun s => (question s, s)

def Action.change (f : Session → Session) : Action Unit :=
  fun s => (.ok (), f s)

def Action.onStore {α : Type} (step : Store → Except Fault α × Store) : Action α :=
  fun s =>
    let (answer, store) := step s.store
    (answer, { s with store })

namespace Session

def withStore (s : Session) (f : Store → Store) : Session := { s with store := f s.store }

def withCatalog (s : Session) (f : Catalog → Catalog) : Session := { s with catalog := f s.catalog }

/-! ### Where elements are -/

/-- The slot of a node that is stored here; none if it is stored nowhere. -/
def nodeSlot? (s : Session) (node : Node) : Except Fault (Option Nat) :=
  match s.catalog.nodeHomes[node]? with
  | none => .ok none
  | some home =>
    if home.store = s.store.token then
      .ok (if s.store.node? home.slot = some node then some home.slot else none)
    else .error (.foreignNode node.id)

def edgeSlot? (s : Session) (edge : Edge) : Except Fault (Option Nat) :=
  match s.catalog.edgeHomes[edge]? with
  | none => .ok none
  | some home =>
    if home.store = s.store.token then
      .ok (if s.store.edge? home.slot = some edge then some home.slot else none)
    else .error (.foreignEdge edge.id)

/-- The slot of a node that must be stored here. -/
def resolveNode (s : Session) (node : Node) : Except Fault Nat := do
  match ← s.nodeSlot? node with
  | some slot => return slot
  | none => throw (.nodeNotStored node.id)

def resolveEdge (s : Session) (edge : Edge) : Except Fault Nat := do
  match ← s.edgeSlot? edge with
  | some slot => return slot
  | none => throw (.edgeNotStored edge.id)

def containsNode (s : Session) (node : Node) : Bool :=
  match s.nodeSlot? node with
  | .ok slot => slot.isSome
  | .error _ => false

def containsEdge (s : Session) (edge : Edge) : Bool :=
  match s.edgeSlot? edge with
  | .ok slot => slot.isSome
  | .error _ => false

/-- The slot of an end of an edge, which must be stored here. -/
def endSlot (s : Session) (edge : Edge) (role : EndRole) : Except Fault Nat := do
  match ← s.nodeSlot? (edge.node role) with
  | some slot => return slot
  | none => throw (.endNotStored role (edge.node role).id)

/-! ### Counting and telling -/

def bumpIf (s : Session) (nodes edges : Bool) : Session :=
  s.withStore fun store => { store with version := store.version.bumpIf nodes edges }

def tell (s : Session) (event : Event) : Session :=
  s.withCatalog fun catalog => s.store.listeners.foldl (Catalog.tell event) catalog

end Session

end PropertyGraph

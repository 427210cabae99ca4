import PropertyGraph.Session.Views

/-!
# Who watches a store

Observers poll versions and snapshots; listeners are told of every event; a provider answers for
default values.
-/

namespace PropertyGraph.Session

open PropertyGraph.Action

def versionOf (s : Session) (view : Option View) : Except Fault Version := do
  match view with
  | none => return s.store.version
  | some view => return (← s.viewRecord view).version

def snapshot (s : Session) (view : Option View) : Except Fault Snapshot := do
  match view with
  | none =>
    return { nodes := .ofList s.store.nodes.nodes, edges := .ofList s.store.edges.edges }
  | some view =>
    return { nodes := .ofList (← s.viewNodes view), edges := .ofList (← s.viewEdges view) }

/-! ### Observers -/

/-- Adds an observer to those of its view, or of the whole store. -/
def attachObserver (observer : Observer) : Action Unit :=
  match observer.view with
  | none => change (·.withStore fun store =>
      { store with observers := store.observers ++ [observer] })
  | some view => changeView view fun record =>
      { record with observers := record.observers ++ [observer] }

/-- Takes an observer out of those of its view, or of the whole store. One whose view is gone is
attached no longer. -/
def detachObserver (s : Session) (observer : Observer) : Session :=
  match observer.view with
  | none => s.withStore fun store =>
      { store with observers := store.observers.filter (· ≠ observer) }
  | some view =>
    match s.viewRecord view with
    | .error _ => s
    | .ok _ => s.withStore fun store =>
        { store with
          views := store.views.modify view.slot fun record =>
            { record with observers := record.observers.filter (· ≠ observer) } }

def observerCount (s : Session) (view : Option View) : Except Fault Nat := do
  match view with
  | none => return s.store.observers.length
  | some view => return (← s.viewRecord view).observers.length

/-- Makes an observer of a view, or of the whole store, which sees what there is now. -/
def createObserver (view : Option View) (keepsDiff : Bool) : Action Observer := do
  let version ← ask (·.versionOf view)
  let snapshot ← if keepsDiff then ask (·.snapshot view) else pure {}
  let s ← get
  let observer : Observer :=
    { serial := s.catalog.fresh, graph := s.store.token, view, keepsDiff }
  change (·.withCatalog fun catalog =>
    { catalog with fresh := catalog.fresh + 1 }.modifyWatch observer
      fun _ => { last := version, snapshot })
  attachObserver observer
  return observer

/-- Looks whether anything has changed since the observer last saw a change. -/
def poll (observer : Observer) : Action Bool := do
  let current ← ask (·.versionOf observer.view)
  let watch := (← get).catalog.watch observer
  if current = watch.last then
    -- Whoever has not taken the last diff by now has missed it.
    change (·.withCatalog (·.modifyWatch observer fun watch => { watch with pending := none }))
    return false
  change (·.withCatalog (·.modifyWatch observer fun watch => { watch with last := current }))
  if observer.keepsDiff then
    let now ← ask (·.snapshot observer.view)
    change (·.withCatalog (·.modifyWatch observer fun watch =>
      { watch with pending := some (.between watch.snapshot now), snapshot := now }))
  return true

/-! ### Listeners and defaults -/

/-- Adds a listener; one that is added twice hears everything twice. -/
def registerListener (listener : Listener) : Action Unit :=
  change (·.withStore fun store => { store with listeners := store.listeners ++ [listener] })

def unregisterListener (listener : Listener) : Action Bool := do
  let registered := (← get).store.listeners.contains listener
  change (·.withStore fun store =>
    { store with listeners := store.listeners.filter (· ≠ listener) })
  return registered

def listenerCount (s : Session) : Nat := s.store.listeners.length

def setDefaults (provider : Option (String → Option Value)) : Action Unit :=
  change (·.withStore fun store => { store with defaults := provider })

def defaultValue (s : Session) (name : String) : Option Value :=
  s.store.defaults.bind (· name)

end PropertyGraph.Session

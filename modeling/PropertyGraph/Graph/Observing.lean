import PropertyGraph.Graph.Space

/-!
# Observing a graph

An observer remembers the version it saw last. A poll is positive if the version differs; then an
observer that keeps what it saw also works out what came and went, and the diff can be taken once,
until the next poll.
-/

namespace PropertyGraph

namespace Observer

def graphHandle (o : Observer) : Graph := { token := o.graph }

def create (g : Graph) (view : Option View) (keepsDiff : Bool) : GraphAction Observer :=
  g.call (.createObserver view keepsDiff)

def watch (o : Observer) : GraphAction Watch := do
  return (← get).catalog.watch o

def poll (o : Observer) : GraphAction Bool := o.graphHandle.call (.poll o)

def detach (o : Observer) : GraphAction Unit := o.graphHandle.call (.detachObserver o)

def hasChanged (o : Observer) : GraphAction Bool := do
  if (← o.watch).destroyed then throw .observerDestroyed
  o.poll

def takeDiff (o : Observer) : GraphAction Diff := do
  let watch ← o.watch
  if watch.destroyed then throw .observerDestroyed
  if !o.keepsDiff then throw .diffNotKept
  match watch.pending with
  | none => throw .diffWithoutChange
  | some diff =>
    modify fun space =>
      { space with
        catalog := space.catalog.modifyWatch o fun watch => { watch with pending := none } }
    return diff

/-- Detaches the observer from its graph, if that still exists, and destroys it. -/
def destroy (o : Observer) : GraphAction Unit := do
  if (← o.watch).destroyed then throw .observerAlreadyDestroyed
  if ((← get).shared? o.graphHandle).isSome then o.detach
  modify fun space => { space with catalog := space.catalog.destroyObserver o }

end Observer

end PropertyGraph

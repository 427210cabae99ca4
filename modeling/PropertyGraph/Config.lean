import PropertyGraph.Fault

/-!
# Configurations

What a graph is opened with. Every part has a default, so a document may leave any of them out.
-/

namespace PropertyGraph

def defaultBlockSize : Nat := 1024

structure Config where
  kind : Kind := .mixed
  /-- Whether calls go through the lock. -/
  locking : Bool := true
  nodeBlockSize : Nat := defaultBlockSize
  edgeBlockSize : Nat := defaultBlockSize
  deriving DecidableEq, Repr, Inhabited

namespace Config

def validate (c : Config) : Except Fault Unit :=
  if c.nodeBlockSize = 0 then .error .zeroNodeBlock
  else if c.edgeBlockSize = 0 then .error .zeroEdgeBlock
  else .ok ()

/-- A part of the configuration: what a document writes for it, or the default if it is left out. -/
def part? {α : Type} (default : α) (decode : Document → Option α) : Option Document → Option α
  | none => some default
  | some document => decode document

/-- The configuration whose parts are written by up to four documents. -/
def ofParts? (kind locking nodeBlockSize edgeBlockSize : Option Document) : Option Config := do
  let default : Config := {}
  return {
    kind := ← part? default.kind (fun d => (d.choice? false).bind Kind.ofName?) kind
    locking := ← part? default.locking Document.bool? locking
    nodeBlockSize := ← part? default.nodeBlockSize Document.word? nodeBlockSize
    edgeBlockSize := ← part? default.edgeBlockSize Document.word? edgeBlockSize }

/-- The configuration that a document writes as a record, or as a list from which parts may be
missing at the end. -/
def ofDocument? : Document → Option Config
  | .record fields => do
    let fields ← Document.wholeKeys? fields
    ofParts? (← Document.atMostOne? "kind" fields) (← Document.atMostOne? "locking" fields)
      (← Document.atMostOne? "node_block_size" fields)
      (← Document.atMostOne? "edge_block_size" fields)
  | .list items => do
    guard (items.length ≤ 4)
    ofParts? items[0]? items[1]? items[2]? items[3]?
  | _ => none

def read (s : String) : Except Fault Config := do
  match (Document.read? s).bind ofDocument? with
  | none => throw .configNotReadable
  | some config =>
    config.validate
    return config

end Config

end PropertyGraph

import PropertyGraph.Document

/-!
# Element ids

The id under which the application knows a node or an edge: an integer or a string. Every integer
comes before every string.
-/

namespace PropertyGraph

/-- An application's name for a node or an edge. -/
inductive ElementId where
  | int (value : Int)
  | str (value : String)
  deriving DecidableEq, Hashable, Repr, Inhabited

namespace ElementId

def isAbsent : ElementId → Bool
  | .int _ => false
  | .str value => value.isEmpty

protected def compare : ElementId → ElementId → Ordering
  | .int a, .int b => Ord.compare a b
  | .int _, .str _ => .lt
  | .str _, .int _ => .gt
  | .str a, .str b => if a < b then .lt else if a = b then .eq else .gt

instance : Ord ElementId := ⟨ElementId.compare⟩

protected def text : ElementId → String
  | .int value => toString value
  | .str value => value

instance : ToString ElementId := ⟨ElementId.text⟩

/-- The integer that the low `width` bits of an integer stand for in two's complement. -/
def signedWord (width : Nat) (value : Int) : Int := value.bmod (1 <<< width)

/-- The natural number that the low `width` bits of an integer stand for. -/
def unsignedWord (width : Nat) (value : Int) : Int := value % (1 <<< width : Nat)

/-- An id from an integer of any width; only its low 64 bits count, with their sign. -/
def ofInt (value : Int) : ElementId := .int (signedWord 64 value)

def ofDocument? : Document → Option ElementId
  | .text value => value.map .str
  | document => document.int64?.map .int

def read? (s : String) : Option ElementId :=
  (Document.read? s).bind ofDocument?

end ElementId

end PropertyGraph

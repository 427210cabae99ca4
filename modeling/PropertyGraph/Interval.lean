import PropertyGraph.Fault

/-!
# Time intervals

A view carries a closed interval of timestamps for whoever resolves values over time; the graph
itself never consults it.
-/

namespace PropertyGraph

structure Interval where
  low : Float
  high : Float
  deriving DecidableEq, Inhabited

namespace Interval

def infinite : Interval where
  low := Float.neg (1.0 / 0.0)
  high := 1.0 / 0.0

/-- The interval between two bounds, which must be numbers and in order. -/
def between (low high : Float) : Except Fault Interval :=
  if low.isNaN || high.isNaN then .error .boundNotANumber
  else if high < low then .error (.boundsInverted low high)
  else .ok { low, high }

def isInfinite (i : Interval) : Bool :=
  i.low == infinite.low && i.high == infinite.high

def contains (i : Interval) (timestamp : Float) : Bool :=
  i.low ≤ timestamp && timestamp ≤ i.high

def overlaps (i j : Interval) : Bool :=
  i.low ≤ j.high && j.low ≤ i.high

protected def text (i : Interval) : String :=
  "[" ++ Decimal.plain.text i.low ++ ", " ++ Decimal.plain.text i.high ++ "]"

def document (i : Interval) : String :=
  "\x7b\"high\":" ++ Decimal.documented.text i.high ++ ",\"low\":" ++ Decimal.documented.text i.low
    ++ "\x7d"

/-- The interval that a document writes as a record of its two bounds or as their list. The bounds
are taken as they are. -/
def ofDocument? : Document → Option Interval
  | .record fields => do
    let fields ← Document.wholeKeys? fields
    let low ← Document.exactlyOne? "low" fields
    let high ← Document.exactlyOne? "high" fields
    return { low := ← low.float?, high := ← high.float? }
  | .list [low, high] => do
    return { low := ← low.float?, high := ← high.float? }
  | _ => none

def read? (s : String) : Option Interval :=
  (Document.read? s).bind ofDocument?

end Interval

end PropertyGraph

import PropertyGraph.Fields

/-!
# Property values

The values that nodes, edges and views carry under names: scalars and two containers.
-/

namespace PropertyGraph

/-- A property value. The fields of a `map` stand in the order of their names. -/
inductive Value where
  | null
  | bool (value : Bool)
  | int (value : Int)
  | float (value : Float)
  | string (value : String)
  | list (items : List Value)
  | map (fields : List (String × Value))
  deriving Inhabited

namespace Value

def typeName : Value → String
  | .null => "NULL"
  | .bool _ => "BOOLEAN"
  | .int _ => "INTEGER"
  | .float _ => "FLOAT"
  | .string _ => "STRING"
  | .list _ => "LIST"
  | .map _ => "MAP"

def isNull : Value → Bool
  | .null => true
  | _ => false

def isNumeric : Value → Bool
  | .int _ | .float _ => true
  | _ => false

def isWhole (x : Float) : Bool :=
  x.isFinite && x.floor == x

/-- The value as a 64-bit integer: an integer, or a float without a fraction, clamped. -/
def asInt : Value → Option Int
  | .int value => some value
  | .float value => if isWhole value then some value.toInt64.toInt else none
  | _ => none

/-- The value as a float: a float, or the float nearest to an integer. -/
def asFloat : Value → Option Float
  | .float value => some value
  | .int value => some (Int64.ofInt value).toFloat
  | _ => none

def asString : Value → Option String
  | .string value => some value
  | _ => none

/-- Whether two values are equal. Floats compare as numbers, so a value that holds a NaN differs
even from itself. -/
protected def beq : Value → Value → Bool
  | .null, .null => true
  | .bool a, .bool b => a == b
  | .int a, .int b => a == b
  | .float a, .float b => a == b
  | .string a, .string b => a == b
  | .list as, .list bs => beqItems as bs
  | .map as, .map bs => beqFields as bs
  | _, _ => false
where
  /-- Equality of the items of two lists. -/
  beqItems : List Value → List Value → Bool
    | [], [] => true
    | a :: as, b :: bs => Value.beq a b && beqItems as bs
    | _, _ => false
  /-- Equality of the fields of two maps, which stand in one order. -/
  beqFields : List (String × Value) → List (String × Value) → Bool
    | [], [] => true
    | (m, a) :: as, (n, b) :: bs => m == n && Value.beq a b && beqFields as bs
    | _, _ => false

instance : BEq Value := ⟨Value.beq⟩

end Value

end PropertyGraph

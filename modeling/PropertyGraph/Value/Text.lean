import PropertyGraph.Decimal.Format
import PropertyGraph.Text.Quoted
import PropertyGraph.Value

/-!
# The text of a value

What a reader of messages and listings sees.
-/

namespace PropertyGraph.Value

protected def text : Value → String
  | .null => "null"
  | .bool value => if value then "true" else "false"
  | .int value => toString value
  | .float value => Decimal.plain.text value
  | .string value => Text.valueQuote value
  | .list items => "[" ++ ", ".intercalate (itemTexts items) ++ "]"
  | .map fields => "\x7b" ++ ", ".intercalate (fieldTexts fields) ++ "\x7d"
where
  /-- The texts of the items of a list. -/
  itemTexts : List Value → List String
    | [] => []
    | item :: rest => Value.text item :: itemTexts rest
  /-- The texts of the fields of a map; a name stands as it is. -/
  fieldTexts : List (String × Value) → List String
    | [] => []
    | (name, value) :: rest => (name ++ ": " ++ Value.text value) :: fieldTexts rest

end PropertyGraph.Value

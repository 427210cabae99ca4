import PropertyGraph.Decimal.Format
import PropertyGraph.Document
import PropertyGraph.Text.Quoted
import PropertyGraph.Value

/-!
# Values in documents

A value is written as a record of its type and its content, or as the list of the two. Reading takes
the two fields in either order. Content that stands before its type is stored until the type is
known, and what is stored has to be sound throughout: whole strings, numerals in range, bounded
depth.
-/

namespace PropertyGraph.Value

/-- Content together with whether it was stored before its type was known. -/
structure Tagged where
  tag : String
  content : Option Document
  stored : Bool

def choiceFits (room : Nat) : Document → Bool
  | .record _ => 0 < room
  | _ => true

def taggedRecord? (room : Nat) (stored : Bool) (fields : List (Option String × Document)) :
    Option Tagged := do
  let fields ← Document.wholeKeys? fields
  let choice ← Document.exactlyOne? "type" fields
  let content ← Document.atMostOne? "value" fields
  guard (choiceFits room choice)
  let tag ← choice.choice? stored
  let known := fields.filter fun (name, _) => name = "type" ∨ name = "value"
  let early := (known.head?.map (·.1)) = some "value"
  if early then guard ((content.map (·.isStorable room)).getD true)
  return { tag, content, stored := stored || early }

def taggedList? (room : Nat) (stored : Bool) : List Document → Option Tagged
  | [choice, content] => do
    guard (choiceFits room choice)
    let tag ← choice.choice? stored
    return { tag, content := some content, stored }
  | _ => none

def tagged? (room : Nat) (stored : Bool) : Document → Option Tagged
  | .record fields => taggedRecord? room stored fields
  | .list items => taggedList? room stored items
  | _ => none

def scalar? (tag : String) (content : Document) : Option Value :=
  match tag, content with
  | "Null", .null => some .null
  | "Bool", content => content.bool?.map .bool
  | "Int", content => content.int64?.map .int
  | "Float", content => content.float?.map .float
  | "String", content => content.string?.map .string
  | _, _ => none

/-- The value that a document writes, with `room` containers left to open. A value takes one for
itself, and one more for a list or a map. -/
def ofDocumentWithin? : Nat → Bool → Document → Option Value
  | 0, _, _ => none
  | room + 1, stored, document =>
    match tagged? room stored document with
    | none => none
    | some { tag := "Null", content := none, .. } => some .null
    | some { content := none, .. } => none
    | some { tag, content := some content, stored } =>
      match room, tag, content with
      | room + 1, "List", .list items =>
        (items.mapM fun item => ofDocumentWithin? room stored item).map .list
      | room + 1, "Map", .record fields => do
        let fields ← Document.wholeKeys? fields
        let entries ← fields.mapM fun (name, value) =>
          (ofDocumentWithin? room stored value).map (name, ·)
        return .map (Fields.ofList entries)
      | _, tag, content => scalar? tag content

def ofDocument? (document : Document) : Option Value :=
  ofDocumentWithin? Document.maxDepth false document

def read? (s : String) : Option Value :=
  (Document.read? s).bind ofDocument?

def floatDocument (x : Float) : String := Decimal.documented.text x

def wrap (tag content : String) : String :=
  "\x7b\"type\":\"" ++ tag ++ "\",\"value\":" ++ content ++ "\x7d"

def document : Value → String
  | .null => "\x7b\"type\":\"Null\"\x7d"
  | .bool value => wrap "Bool" (if value then "true" else "false")
  | .int value => wrap "Int" (toString value)
  | .float value => wrap "Float" (floatDocument value)
  | .string value => wrap "String" (Text.documentQuote value)
  | .list items => wrap "List" ("[" ++ ",".intercalate (itemDocuments items) ++ "]")
  | .map fields => wrap "Map" ("\x7b" ++ ",".intercalate (fieldDocuments fields) ++ "\x7d")
where
  /-- The items of a list as documents. -/
  itemDocuments : List Value → List String
    | [] => []
    | item :: rest => document item :: itemDocuments rest
  /-- The fields of a map as documents under their names. -/
  fieldDocuments : List (String × Value) → List String
    | [] => []
    | (name, value) :: rest =>
      (Text.documentQuote name ++ ":" ++ document value) :: fieldDocuments rest

end PropertyGraph.Value

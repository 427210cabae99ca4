/-!
# Fields

A finite map from names to values, kept as a list in the order of the names. So two maps with the
same entries are the same list, and whatever is written from one comes out sorted.
-/

namespace PropertyGraph

/-- Entries in increasing order of their names. -/
abbrev Fields (α : Type) := List (String × α)

namespace Fields

variable {α : Type}

def get? (fields : Fields α) (name : String) : Option α :=
  List.lookup name fields

def insert (fields : Fields α) (name : String) (value : α) : Fields α :=
  match fields with
  | [] => [(name, value)]
  | (other, held) :: rest =>
    if name < other then (name, value) :: (other, held) :: rest
    else if name = other then (name, value) :: rest
    else (other, held) :: insert rest name value

def erase (fields : Fields α) (name : String) : Fields α :=
  fields.filter fun entry => entry.1 ≠ name

def replace (fields : Fields α) (name : String) (value : α) : Option α × Fields α :=
  (fields.get? name, fields.insert name value)

def remove (fields : Fields α) (name : String) : Option α × Fields α :=
  (fields.get? name, fields.erase name)

/-- Collects entries; of those with one name the last stays. -/
def ofList (entries : List (String × α)) : Fields α :=
  entries.foldl (fun fields (name, value) => insert fields name value) []

end Fields

end PropertyGraph

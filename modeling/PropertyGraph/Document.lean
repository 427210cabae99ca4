import PropertyGraph.Decimal.Numeral

/-!
# Documents

A document is the tree that a JSON text writes. Reading it checks the grammar only: numerals stay as
written, and a string whose escapes leave half of a surrogate pair alone is kept as `none`. Whoever
asks for a part of the tree decides whether such a part is acceptable, so a part that nobody asks
for only has to be grammatical.
-/

namespace PropertyGraph

open Decimal (Numeral)

/-- The tree that a text writes. Fields stand in written order, and a key may be repeated. -/
inductive Document where
  | null
  | bool (value : Bool)
  | number (numeral : Numeral)
  | text (value : Option String)
  | list (items : List Document)
  | record (fields : List (Option String × Document))
  deriving Repr, Inhabited

namespace Document

/-! ### Tokens -/

/-- The words of the grammar. -/
inductive Token where
  | openList
  | closeList
  | openRecord
  | closeRecord
  | comma
  | colon
  | null
  | bool (value : Bool)
  | number (numeral : Numeral)
  | text (value : Option String)
  deriving Repr

def hexDigit? (c : Char) : Option Nat :=
  if '0' ≤ c ∧ c ≤ '9' then some (c.toNat - '0'.toNat)
  else if 'a' ≤ c ∧ c ≤ 'f' then some (c.toNat - 'a'.toNat + 10)
  else if 'A' ≤ c ∧ c ≤ 'F' then some (c.toNat - 'A'.toNat + 10)
  else none

def hexQuad? (a b c d : Char) : Option Nat := do
  let a ← hexDigit? a
  let b ← hexDigit? b
  let c ← hexDigit? c
  let d ← hexDigit? d
  return ((a * 16 + b) * 16 + c) * 16 + d

def escaped? (c : Char) : Option Char :=
  match c with
  | '"' => some '"'
  | '\\' => some '\\'
  | '/' => some '/'
  | 'b' => some '\x08'
  | 'f' => some '\x0c'
  | 'n' => some '\n'
  | 'r' => some '\r'
  | 't' => some '\t'
  | _ => none

/-- Scans the inside of a string up to its closing quote, giving code points and the surrogates that
escapes wrote. -/
def scanText (codes : List Nat) : List Char → Option (List Nat × List Char)
  | [] => none
  | '"' :: rest => some (codes.reverse, rest)
  | ['\\'] => none
  | '\\' :: 'u' :: a :: b :: c :: d :: rest =>
    match hexQuad? a b c d with
    | some code => scanText (code :: codes) rest
    | none => none
  | '\\' :: c :: rest =>
    match escaped? c with
    | some c => scanText (c.toNat :: codes) rest
    | none => none
  | c :: rest => if c.toNat < 0x20 then none else scanText (c.toNat :: codes) rest

/-- Joins surrogate pairs; none if a surrogate stands alone. -/
def joinSurrogates : List Nat → Option (List Char)
  | [] => some []
  | [code] => if 0xD800 ≤ code ∧ code ≤ 0xDFFF then none else some [Char.ofNat code]
  | code :: next :: rest =>
    if 0xD800 ≤ code ∧ code ≤ 0xDBFF ∧ 0xDC00 ≤ next ∧ next ≤ 0xDFFF then
      (joinSurrogates rest).map
        (Char.ofNat (0x10000 + (code - 0xD800) * 0x400 + (next - 0xDC00)) :: ·)
    else if 0xD800 ≤ code ∧ code ≤ 0xDFFF then none
    else (joinSurrogates (next :: rest)).map (Char.ofNat code :: ·)

def scanDigits : List Char → List Nat × List Char
  | [] => ([], [])
  | c :: rest =>
    if '0' ≤ c ∧ c ≤ '9' then
      let (digits, rest) := scanDigits rest
      ((c.toNat - '0'.toNat) :: digits, rest)
    else ([], c :: rest)

def scanFraction : List Char → Option (Option (List Nat) × List Char)
  | '.' :: rest =>
    match scanDigits rest with
    | ([], _) => none
    | (digits, rest) => some (some digits, rest)
  | rest => some (none, rest)

def scanExponent : List Char → Option (Option (Bool × List Nat) × List Char)
  | c :: rest =>
    if c = 'e' ∨ c = 'E' then
      let (minus, rest) := match rest with
        | '-' :: rest => (true, rest)
        | '+' :: rest => (false, rest)
        | rest => (false, rest)
      match scanDigits rest with
      | ([], _) => none
      | (digits, rest) => some (some (minus, digits), rest)
    else some (none, c :: rest)
  | [] => some (none, [])

/-- A numeral without its sign. A leading zero stands alone. -/
def scanMagnitude (negative : Bool) (cs : List Char) : Option (Numeral × List Char) := do
  let (whole, rest) := scanDigits cs
  guard (!whole.isEmpty && (whole.length = 1 || whole.head? != some 0))
  let (fraction, rest) ← scanFraction rest
  let (exponent, rest) ← scanExponent rest
  return (⟨negative, whole, fraction, exponent⟩, rest)

def isBlank (c : Char) : Bool :=
  c = ' ' || c = '\n' || c = '\t' || c = '\r'

def scanToken (cs : List Char) : Option (Token × List Char) :=
  match cs with
  | '[' :: rest => some (.openList, rest)
  | ']' :: rest => some (.closeList, rest)
  | '\x7b' :: rest => some (.openRecord, rest)
  | '\x7d' :: rest => some (.closeRecord, rest)
  | ',' :: rest => some (.comma, rest)
  | ':' :: rest => some (.colon, rest)
  | 'n' :: 'u' :: 'l' :: 'l' :: rest => some (.null, rest)
  | 't' :: 'r' :: 'u' :: 'e' :: rest => some (.bool true, rest)
  | 'f' :: 'a' :: 'l' :: 's' :: 'e' :: rest => some (.bool false, rest)
  | '"' :: rest => (scanText [] rest).map fun (codes, rest) =>
      (.text ((joinSurrogates codes).map String.ofList), rest)
  | '-' :: rest => (scanMagnitude true rest).map fun (numeral, rest) => (.number numeral, rest)
  | rest => (scanMagnitude false rest).map fun (numeral, rest) => (.number numeral, rest)

/-- Splits characters into tokens. Every step takes a character, so as many steps as there are
characters suffice. -/
def scanAll (tokens : List Token) : Nat → List Char → Option (List Token)
  | _, [] => some tokens.reverse
  | 0, _ :: _ => none
  | steps + 1, c :: rest =>
    if isBlank c then scanAll tokens steps rest
    else match scanToken (c :: rest) with
      | none => none
      | some (token, rest) => scanAll (token :: tokens) steps rest

def tokens? (s : String) : Option (List Token) :=
  let cs := s.toList
  scanAll [] cs.length cs

/-! ### Trees -/

/-- A container that is still open, its parts in reverse order. A record holds the key of the value
being read. -/
inductive Frame where
  | list (items : List Document)
  | record (fields : List (Option String × Document)) (key : Option String)

inductive Stage where
  | value
  | itemOrEnd
  | keyOrEnd
  | key
  | colon
  | separator
  | complete (document : Document)

/-- Hands a finished value to the innermost open container. -/
def settle (document : Document) : List Frame → List Frame × Stage
  | [] => ([], .complete document)
  | .list items :: open_ => (.list (document :: items) :: open_, .separator)
  | .record fields key :: open_ => (.record ((key, document) :: fields) none :: open_, .separator)

/-- Takes a token where a value must begin. -/
def beginValue (open_ : List Frame) : Token → Option (List Frame × Stage)
  | .null => some (settle .null open_)
  | .bool value => some (settle (.bool value) open_)
  | .number numeral => some (settle (.number numeral) open_)
  | .text value => some (settle (.text value) open_)
  | .openList => some (.list [] :: open_, .itemOrEnd)
  | .openRecord => some (.record [] none :: open_, .keyOrEnd)
  | _ => none

def beginField : List Frame → Token → Option (List Frame × Stage)
  | .record fields _ :: open_, .text key => some (.record fields key :: open_, .colon)
  | _, _ => none

/-- Closes the innermost container with its own bracket. -/
def close : List Frame → Token → Option (List Frame × Stage)
  | .list items :: open_, .closeList => some (settle (.list items.reverse) open_)
  | .record fields _ :: open_, .closeRecord => some (settle (.record fields.reverse) open_)
  | _, _ => none

def advance (open_ : List Frame) : Stage → Token → Option (List Frame × Stage)
  | .value, token => beginValue open_ token
  | .itemOrEnd, token => (close open_ token) <|> (beginValue open_ token)
  | .keyOrEnd, token => (close open_ token) <|> (beginField open_ token)
  | .key, token => beginField open_ token
  | .colon, .colon => some (open_, .value)
  | .separator, .comma =>
    match open_ with
    | .list _ :: _ => some (open_, .value)
    | .record _ _ :: _ => some (open_, .key)
    | [] => none
  | .separator, token => close open_ token
  | _, _ => none

/-- Takes all tokens; the document must be complete when they end. -/
def build : List Frame → Stage → List Token → Option Document
  | _, .complete document, [] => some document
  | open_, stage, token :: rest =>
    match advance open_ stage token with
    | some (open_, stage) => build open_ stage rest
    | none => none
  | _, _, [] => none

def read? (s : String) : Option Document :=
  (tokens? s).bind (build [] .value)

/-! ### Parts -/

/-- How many containers may be open at once in what a reader asks for. -/
def maxDepth : Nat := 127

/-- Whether every string is whole, every numeral in range, and no more than `room` containers are
open at once: what is asked of a part that is stored before its meaning is known. -/
def isStorable (room : Nat) : Document → Bool
  | .null => true
  | .bool _ => true
  | .number numeral => numeral.toFloat?.isSome
  | .text value => value.isSome
  | .list items =>
    match room with
    | 0 => false
    | room + 1 => items.attach.all fun ⟨item, _⟩ => item.isStorable room
  | .record fields =>
    match room with
    | 0 => false
    | room + 1 => fields.attach.all fun ⟨(key, value), _⟩ => key.isSome && value.isStorable room

def wholeKeys? (fields : List (Option String × Document)) : Option (List (String × Document)) :=
  fields.mapM fun (key, value) => key.map (·, value)

def valuesOf (key : String) (fields : List (String × Document)) : List Document :=
  fields.filterMap fun (name, value) => if name = key then some value else none

/-- The value of a field that may be absent but not repeated. -/
def atMostOne? (key : String) (fields : List (String × Document)) : Option (Option Document) :=
  match valuesOf key fields with
  | [] => some none
  | [value] => some (some value)
  | _ => none

def exactlyOne? (key : String) (fields : List (String × Document)) : Option Document :=
  match valuesOf key fields with
  | [value] => some value
  | _ => none

def int64? : Document → Option Int
  | .number numeral => do
    let value ← numeral.toInt?
    guard (value < (1 <<< 63 : Nat))
    return value
  | _ => none

def word? : Document → Option Nat
  | .number numeral => numeral.toInt?.bind Int.toNat?
  | _ => none

def float? : Document → Option Float
  | .number numeral => numeral.toFloat?
  | _ => none

def bool? : Document → Option Bool
  | .bool value => some value
  | _ => none

def string? : Document → Option String
  | .text value => value
  | _ => none

/-- The name of a choice: a string, or a record with the name as its only key and nothing beneath
it. A part that was stored first may write the nothing as an empty record. -/
def choice? (stored : Bool) : Document → Option String
  | .text name => name
  | .record [(name, .null)] => name
  | .record [(name, .record [])] => if stored then name else none
  | _ => none

end Document

end PropertyGraph

import PropertyGraph.Text.Concealed

/-!
# Quoted text

Three ways to write a string between quotes: inside a document, inside the text of a value, and in
the diagnostic text of a handle.
-/

namespace PropertyGraph.Text

/-- The hexadecimal digits of a code point, in lower case and at least `width` of them. -/
def hexText (width : Nat) (code : Nat) : String :=
  let digits := Nat.toDigits 16 code
  String.ofList (List.replicate (width - digits.length) '0' ++ digits)

/-- How a document writes a character: quote, backslash and controls are escaped. -/
def documentEscape (c : Char) : String :=
  if c = '"' then "\\\""
  else if c = '\\' then "\\\\"
  else if c = '\x08' then "\\b"
  else if c = '\t' then "\\t"
  else if c = '\n' then "\\n"
  else if c = '\x0c' then "\\f"
  else if c = '\r' then "\\r"
  else if c.toNat < 0x20 then "\\u" ++ hexText 4 c.toNat
  else c.toString

/-- How diagnostic text writes a character: what does not show is written by its code point. -/
def diagnosticEscape (c : Char) : String :=
  if c = '\x00' then "\\0"
  else if c = '\t' then "\\t"
  else if c = '\r' then "\\r"
  else if c = '\n' then "\\n"
  else if c = '\\' then "\\\\"
  else if c = '"' then "\\\""
  else if isConcealed c then "\\u\x7b" ++ hexText 1 c.toNat ++ "\x7d"
  else c.toString

def valueEscape (c : Char) : String :=
  if c = '"' then "\\\"" else c.toString

def quoteWith (escape : Char → String) (s : String) : String :=
  "\"" ++ s.toList.foldl (fun text c => text ++ escape c) "" ++ "\""

def documentQuote (s : String) : String := quoteWith documentEscape s

def diagnosticQuote (s : String) : String := quoteWith diagnosticEscape s

def valueQuote (s : String) : String := quoteWith valueEscape s

end PropertyGraph.Text

import PropertyGraph.Decimal.Shortest

/-!
# Written forms of binary64 numbers

Every form writes the fewest digits that read back. A `Format` records what the forms differ in:
when digits stand without an exponent, whether a whole number shows a fraction, how ties go, and
how the values outside the finite numbers are spelled.
-/

namespace PropertyGraph.Decimal

/-- The decisions of one written form. -/
structure Format where
  /-- Decimal exponents written without an exponent part; `none` admits all. -/
  positional : Option (Int × Int)
  /-- What follows the digits of a whole number. -/
  wholeSuffix : String
  tie : Tie
  notANumber : String
  infinity : String
  negativeInfinity : String

/-- The form of the text of a value: never an exponent, and no fraction on a whole number. -/
def plain : Format where
  positional := none
  wholeSuffix := ""
  tie := .up
  notANumber := "NaN"
  infinity := "inf"
  negativeInfinity := "-inf"

/-- The form inside a document: exponents outside −5 … 15 are written out, every number shows that
it is not an integer, and a document has no spelling for the values that are not finite. -/
def documented : Format where
  positional := some (-5, 15)
  wholeSuffix := ".0"
  tie := .even
  notANumber := "null"
  infinity := "null"
  negativeInfinity := "null"

private def zeros (count : Nat) : String := String.ofList (List.replicate count '0')

/-- The digits with the point after the first `point` of them, zeros filling up on either side. -/
def positionalText (form : Format) (digits : String) (point : Int) : String :=
  if point ≤ 0 then "0." ++ zeros (-point).toNat ++ digits
  else if (digits.length : Int) ≤ point then
    digits ++ zeros (point - digits.length).toNat ++ form.wholeSuffix
  else
    let chars := digits.toList
    String.ofList (chars.take point.toNat) ++ "." ++ String.ofList (chars.drop point.toNat)

def exponentText (digits : String) (exponent : Int) : String :=
  let chars := digits.toList
  let fraction := chars.drop 1
  String.ofList (chars.take 1) ++ (if fraction.isEmpty then "" else "." ++ String.ofList fraction)
    ++ "e" ++ (if exponent < 0 then toString exponent else "+" ++ toString exponent)

def Format.scaledText (form : Format) (x : Scaled) : String :=
  let digits := toString x.digits
  let exponent := (digits.length : Int) + x.scale - 1
  match form.positional with
  | none => positionalText form digits (exponent + 1)
  | some (least, most) =>
    if least ≤ exponent ∧ exponent ≤ most then positionalText form digits (exponent + 1)
    else exponentText digits exponent

def Format.bitsText (form : Format) (bits : UInt64) : String :=
  let magnitude := Magnitude.ofBits bits
  if isSpecial bits then
    if fractionOf bits ≠ 0 then form.notANumber
    else if isNegative bits then form.negativeInfinity else form.infinity
  else
    let sign := if isNegative bits then "-" else ""
    if magnitude.mantissa = 0 then sign ++ "0" ++ form.wholeSuffix
    else sign ++ form.scaledText (magnitude.shortest form.tie)

def Format.text (form : Format) (x : Float) : String :=
  form.bitsText x.toBits

end PropertyGraph.Decimal

/-!
# Numerals

A numeral is kept as it was written until a reader asks for an integer or a binary64 number. The
first 64 bits of its digits count; what does not fit only scales the number (before the point) or
is dropped (behind it), and the scaling is one multiplication or division by a power of ten. So the
number read is near the decimal, but not always the nearest.
-/

namespace PropertyGraph.Decimal

/-- A numeral as written. Digits are values below ten, most significant first. -/
structure Numeral where
  negative : Bool
  whole : List Nat
  /-- The digits behind the point; `none` if there is no point. -/
  fraction : Option (List Nat)
  /-- The sign (`true` for minus) and the digits of the exponent, if there is one. -/
  exponent : Option (Bool × List Nat)
  deriving DecidableEq, Repr

/-- The digits that fit 64 bits, the power of ten they are scaled by, and whether a digit was left
out. -/
structure Significand where
  value : Nat
  scale : Int
  full : Bool
  deriving DecidableEq, Repr

def Significand.limit : Nat := 1 <<< 64

/-- A digit before the point: once one did not fit, it and all later ones scale. -/
def Significand.pushWhole (s : Significand) (digit : Nat) : Significand :=
  if s.full ∨ Significand.limit ≤ s.value * 10 + digit then
    { s with scale := s.scale + 1, full := true }
  else { s with value := s.value * 10 + digit }

/-- A digit behind the point: once one did not fit, it and all later ones are dropped. -/
def Significand.pushFraction (s : Significand) (digit : Nat) : Significand :=
  if s.full ∨ Significand.limit ≤ s.value * 10 + digit then { s with full := true }
  else { s with value := s.value * 10 + digit, scale := s.scale - 1 }

def Numeral.wholePart (n : Numeral) : Significand :=
  n.whole.foldl Significand.pushWhole ⟨0, 0, false⟩

/-- All digits. The digits behind the point get a trial of their own, even after a digit before it
did not fit. -/
def Numeral.significand (n : Numeral) : Significand :=
  (n.fraction.getD []).foldl Significand.pushFraction { n.wholePart with full := false }

def ofDigits (digits : List Nat) : Nat :=
  digits.foldl (· * 10 + ·) 0

def Numeral.power (n : Numeral) : Int :=
  match n.exponent with
  | none => 0
  | some (minus, digits) => if minus then -(ofDigits digits : Int) else ofDigits digits

def maxPower : Nat := 308

/-- Scales by a power of ten. Below the range of powers the number is brought up in steps of the
largest one; a number that leaves the finite range is refused. Three steps exhaust every
significand. -/
def scaleBy? : Nat → Float → Int → Option Float
  | steps, x, power =>
    if power.natAbs ≤ maxPower then
      if 0 ≤ power then
        let y := x * Float.ofScientific 1 false power.natAbs
        if y.isInf then none else some y
      else some (x / Float.ofScientific 1 false power.natAbs)
    else if x == 0 then some x
    else if 0 ≤ power then none
    else match steps with
      | 0 => some 0
      | steps + 1 => scaleBy? steps (x / Float.ofScientific 1 false maxPower) (power + maxPower)

def Numeral.isWhole (n : Numeral) : Bool :=
  n.fraction.isNone && n.exponent.isNone

/-- The integer that the numeral writes, within 64 bits: a natural number below 2⁶⁴, or a negative
integer from −2⁶³. Minus zero is not an integer. -/
def Numeral.toInt? (n : Numeral) : Option Int :=
  let magnitude := ofDigits n.whole
  if !n.isWhole then none
  else if n.negative then
    if magnitude = 0 ∨ 1 <<< 63 < magnitude then none else some (-(magnitude : Int))
  else if magnitude < 1 <<< 64 then some magnitude else none

/-- The binary64 number that the numeral stands for; none if it is too large. -/
def Numeral.toFloat? (n : Numeral) : Option Float :=
  let s := n.significand
  let magnitude := s.value.toUInt64.toFloat
  let power := s.scale + n.power
  (scaleBy? 8 magnitude power).map fun x => if n.negative then -x else x

end PropertyGraph.Decimal

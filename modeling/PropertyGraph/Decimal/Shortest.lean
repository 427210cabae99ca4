/-!
# The shortest decimal that reads back

A finite binary64 number is `m · 2 ^ q` for naturals `m` and integers `q`. The reals that round to
it form an interval around it; among the decimals `d · 10 ^ s` in that interval, the printer wants
one on the coarsest grid `10 ^ s`, and of those the nearest. All arithmetic here is exact, on
naturals.
-/

namespace PropertyGraph.Decimal

/-- The magnitude of a finite binary64 number, `mantissa · 2 ^ exponent`. `halved` says that the
mantissa is the least one of its binade, where the next smaller number is only half a step away. -/
structure Magnitude where
  mantissa : Nat
  exponent : Int
  halved : Bool
  deriving DecidableEq, Repr

def fractionOf (bits : UInt64) : Nat := bits.toNat % (1 <<< 52)

def exponentOf (bits : UInt64) : Nat := (bits.toNat >>> 52) % (1 <<< 11)

def isSpecial (bits : UInt64) : Bool := exponentOf bits = 2047

def isNegative (bits : UInt64) : Bool := bits.toNat >>> 63 = 1

/-- The magnitude that a bit pattern with a finite exponent field stands for. -/
def Magnitude.ofBits (bits : UInt64) : Magnitude :=
  let fraction := fractionOf bits
  let field := exponentOf bits
  if field = 0 then { mantissa := fraction, exponent := -1074, halved := false }
  else
    { mantissa := fraction + (1 <<< 52)
      exponent := (field : Int) - 1075
      halved := decide (fraction = 0 ∧ 1 < field) }

/-- Which of two equally near decimals is taken. -/
inductive Tie where
  | even
  | up
  deriving DecidableEq, Repr

/-- The positive decimal `digits · 10 ^ scale`. -/
structure Scaled where
  digits : Nat
  scale : Int
  deriving DecidableEq, Repr

/-- The interval of reals that round to a magnitude, as numerators over one common denominator. -/
structure Band where
  low : Nat
  middle : Nat
  high : Nat
  denominator : Nat
  closed : Bool

/-- The ends of the band lie half a step from the number, a quarter below a power of two, and belong
to the band when the mantissa is even. -/
def Magnitude.band (x : Magnitude) : Band :=
  let up := (x.exponent - 2).toNat
  { low := (4 * x.mantissa - if x.halved then 1 else 2) <<< up
    middle := (4 * x.mantissa) <<< up
    high := (4 * x.mantissa + 2) <<< up
    denominator := 1 <<< (2 - x.exponent).toNat
    closed := x.mantissa % 2 = 0 }

/-- Whether `n / denominator` lies in the band. -/
def Band.holds (b : Band) (n : Nat) : Bool :=
  if b.closed then b.low ≤ n ∧ n ≤ b.high else b.low < n ∧ n < b.high

/-- The band over a denominator that makes every point of the grid `10 ^ scale` a multiple of the
returned step. -/
def Band.onGrid (b : Band) (scale : Int) : Band × Nat :=
  let factor := Nat.pow 10 (-scale).toNat
  ({ b with low := b.low * factor, middle := b.middle * factor, high := b.high * factor },
    b.denominator * Nat.pow 10 scale.toNat)

/-- The point of the grid that lies in the band and is nearest to its middle, if one does. Only the
middle's two neighbours on the grid can be. -/
def Band.pointOn? (b : Band) (tie : Tie) (scale : Int) : Option Nat :=
  let (b, step) := b.onGrid scale
  let below := b.middle / step
  let above := below + 1
  match b.holds (below * step), b.holds (above * step) with
  | false, false => none
  | true, false => some below
  | false, true => some above
  | true, true =>
    let twice := 2 * (b.middle - below * step)
    if twice < step then some below
    else if step < twice then some above
    else match tie with
      | .even => some (if below % 2 = 0 then below else above)
      | .up => some above

/-- Searches the grids from `scale` downwards for the first that has a point in the band. -/
def Band.search (b : Band) (tie : Tie) : Nat → Int → Scaled
  | 0, scale =>
    let (b, step) := b.onGrid scale
    ⟨b.middle / step, scale⟩
  | fuel + 1, scale =>
    match b.pointOn? tie scale with
    | some digits => ⟨digits, scale⟩
    | none => b.search tie fuel (scale - 1)

/-- The fewest digits that read back as the magnitude, which must not be zero. The search starts on
a grid coarser than the number, and seventeen digits always suffice. -/
def Magnitude.shortest (x : Magnitude) (tie : Tie) : Scaled :=
  let bits : Int := (Nat.log2 x.mantissa : Int) + 1 + x.exponent
  x.band.search tie 24 (bits * 30103 / 100000 + 2)

end PropertyGraph.Decimal

/-
# The shortest decimal that reads back as a given double

A decimal reads back as a double exactly if it lies between the midpoints to the
neighbouring doubles, where a midpoint itself counts if the double's significand
is even. The coarsest power-of-ten grid with a point in that range gives the
fewest digits. At most the two grid points around the double can lie there; of two
the nearer is taken, and of two equally near the larger.
-/

namespace Script

/-- The number `digits * 10 ^ exponent`. -/
structure Decimal where
  digits : Nat
  exponent : Int
  deriving DecidableEq

namespace Decimal

/-- The decimals that read back as one double, measured in units of
`1 / denominator`: the double itself is `value`, the midpoints lie at `lower` and
`upper`. -/
structure Range where
  value : Nat
  lower : Nat
  upper : Nat
  denominator : Nat
  closed : Bool

/-- The range of `significand * 2 ^ power`, where one is a step of the grid
`10 ^ exponent`. The neighbour below is only half as far away if the significand is
the least that its power of two admits. -/
def Range.onGrid (significand : Nat) (power : Int) (exponent : Int) : Range :=
  let scale := Nat.pow 2 power.toNat * Nat.pow 10 (-exponent).toNat
  let below := if significand = Nat.pow 2 52 ∧ power > -1074 then 1 else 2
  { value := 4 * significand * scale
    lower := (4 * significand - below) * scale
    upper := (4 * significand + 2) * scale
    denominator := 4 * (Nat.pow 2 (-power).toNat * Nat.pow 10 exponent.toNat)
    closed := significand % 2 = 0 }

/-- Whether a multiple of the denominator lies in the range. -/
def Range.contains (range : Range) (multiple : Nat) : Bool :=
  let point := multiple * range.denominator
  if range.closed then range.lower ≤ point && point ≤ range.upper
  else range.lower < point && point < range.upper

/-- The grid point that stands for the double, if one lies in the range. -/
def Range.gridPoint? (range : Range) : Option Nat :=
  let floor := range.value / range.denominator
  let rest := range.value % range.denominator
  match range.contains floor, range.contains (floor + 1) with
  | true, true => some (if 2 * rest < range.denominator then floor else floor + 1)
  | true, false => some floor
  | false, true => some (floor + 1)
  | false, false => none

/-- The first grid with a point in the range, from the grid `10 ^ exponent` downward. -/
def search (significand : Nat) (power : Int) : Nat → Int → Decimal
  | 0, exponent => ⟨significand, exponent⟩
  | steps + 1, exponent =>
    match (Range.onGrid significand power exponent).gridPoint? with
    | some digits => ⟨digits, exponent⟩
    | none => search significand power steps (exponent - 1)

/-- The shortest decimal for the positive double `significand * 2 ^ power`. The
search begins above the double's own decade; seventeen digits always suffice. -/
def shortest (significand : Nat) (power : Int) : Decimal :=
  let magnitude := (Nat.log2 significand : Int) + 1 + power
  search significand power 24 (magnitude * 30103 / 100000 + 2)

end Decimal

end Script

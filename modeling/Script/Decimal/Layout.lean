/-
# Decimals as text

Two ways to write a decimal: with a point between the units and the tenths and as
many zeros as that takes, or with one digit before the point and a power of ten.
The first always shows a fraction, the second shows one only if there are digits
for it.
-/

import Script.Decimal.Shortest

namespace Script.Decimal

/-- A row of zeros. -/
def zeros (count : Nat) : List Char := List.replicate count '0'

/-- The digits of a decimal without its exponent. -/
def significant (decimal : Decimal) : List Char := Nat.toDigits 10 decimal.digits

/-- The power of ten of the first digit. -/
def order (decimal : Decimal) : Int :=
  decimal.exponent + decimal.significant.length - 1

/-- Units and fraction around a point. -/
def positional (decimal : Decimal) : String :=
  let digits := decimal.significant
  let units := decimal.order + 1
  String.ofList <|
    if units ≤ 0 then "0.".toList ++ zeros (-units).toNat ++ digits
    else if digits.length ≤ units.toNat then
      digits ++ zeros (units.toNat - digits.length) ++ ".0".toList
    else digits.take units.toNat ++ '.' :: digits.drop units.toNat

/-- One digit, the others after a point, and the power of ten after `e`. -/
def scientific (decimal : Decimal) : String :=
  let mantissa :=
    match decimal.significant with
    | first :: second :: rest => first :: '.' :: second :: rest
    | digits => digits
  String.ofList mantissa ++ "e" ++ toString decimal.order

end Script.Decimal

/-
# Numbers as text

Integers are written in decimal. A double is written with the fewest digits that
read back as it, around a point and always with a fraction. A second form of
doubles turns to powers of ten for very large and very small values.
-/

import Script.Decimal.Layout
import Script.Number.Basic

namespace Script

/-- A minus sign before a text. -/
def signed (negative : Bool) (text : String) : String :=
  if negative then "-" ++ text else text

namespace Number

/-- A double around a point, with names for the values that have no digits. -/
def doubleText (value : Float) : String :=
  match Binary.ofFloat value with
  | .undefined => "NaN"
  | .infinite negative => signed negative "Infinity"
  | .finite negative significand exponent =>
    signed negative <|
      if significand = 0 then "0.0" else (Decimal.shortest significand exponent).positional

/-- A double as it is shown with its token: as a power of ten from `10 ^ 16` on and
below `10 ^ -4`. -/
def doubleTokenText (value : Float) : String :=
  match Binary.ofFloat value with
  | .undefined => "NaN"
  | .infinite negative => signed negative "inf"
  | .finite negative significand exponent =>
    signed negative <|
      if significand = 0 then "0.0"
      else
        let decimal := Decimal.shortest significand exponent
        if decimal.order ≥ 16 ∨ decimal.order < -4 then decimal.scientific
        else decimal.positional

/-- The text of a number. -/
def display : Number → String
  | int value => toString value.toInt
  | long value => toString value.toInt
  | double value => doubleText value

end Number

end Script

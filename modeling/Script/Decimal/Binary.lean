/-
# Doubles as integers times powers of two

Every finite double is an integer below `2 ^ 53` times a power of two, with a
sign. This form makes exact arithmetic possible: the remainder of two doubles is
a remainder of integers once both are written over the smaller power.
-/

namespace Script

/-- A double taken apart. The finite value is `significand * 2 ^ exponent`, or
its negative. -/
inductive Binary where
  | undefined
  | infinite (negative : Bool)
  | finite (negative : Bool) (significand : Nat) (exponent : Int)
  deriving DecidableEq

namespace Binary

/-- Take the bits of a double apart: one bit of sign, eleven of exponent and
fifty-two of fraction. Exponent zero marks the numbers without a leading one. -/
def ofBits (bits : UInt64) : Binary :=
  let word : Nat := bits.toNat
  let negative := word / Nat.pow 2 63 = 1
  let power : Nat := word / Nat.pow 2 52 % Nat.pow 2 11
  let fraction : Nat := word % Nat.pow 2 52
  if power = 2047 then
    if fraction = 0 then infinite negative else undefined
  else if power = 0 then finite negative fraction (-1074)
  else finite negative (Nat.pow 2 52 + fraction) ((power : Int) - 1075)

/-- Take a double apart. -/
def ofFloat (value : Float) : Binary := ofBits value.toBits

/-- A natural number below `2 ^ 53` times a power of two, with a sign, as a double. -/
def toFloat (negative : Bool) (significand : Nat) (exponent : Int) : Float :=
  let magnitude := (Float.ofNat significand).scaleB exponent
  if negative then -magnitude else magnitude

/-- The remainder of a division that truncates. It has the sign of the dividend
and is exact, since it is a multiple of the smaller power of two and is no larger
than the significand that stands over it. -/
def remainder (dividend divisor : Float) : Float :=
  match ofFloat dividend, ofFloat divisor with
  | finite negative top topExponent, finite _ bottom bottomExponent =>
    if bottom = 0 then 0.0 / 0.0
    else
      let exponent := min topExponent bottomExponent
      let whole := top * Nat.pow 2 (topExponent - exponent).toNat
      let unit := bottom * Nat.pow 2 (bottomExponent - exponent).toNat
      toFloat negative (whole % unit) exponent
  | finite .., infinite _ => dividend
  | _, _ => 0.0 / 0.0

end Binary

end Script

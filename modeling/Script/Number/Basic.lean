/-
# Numbers

A number is a 32-bit integer, a 64-bit integer or a double. Integers wrap. Two
numbers of different kinds are brought to the wider kind before an operation, so
that the result's kind is the wider of the two. Division truncates, and the
remainder takes the sign of the divisor.
-/

import Script.Decimal.Binary

namespace Script

/-- A number of one of the three kinds. -/
inductive Number where
  | int (value : Int32)
  | long (value : Int64)
  | double (value : Float)
  deriving BEq, Inhabited

/-- Why an operation on two numbers has no result. -/
inductive ArithmeticError where
  | divisionByZero
  deriving DecidableEq

/-- The reason as a reader sees it. -/
def ArithmeticError.message : ArithmeticError → String
  | divisionByZero => "integer division by zero"

namespace Number

/-- The value of a row of decimal digits. Other characters are passed over. -/
def digitsValue (digits : List Char) : Nat :=
  (digits.filter Char.isDigit).foldl
    (fun value digit => value * 10 + (digit.toNat - '0'.toNat)) 0

/-- The value of a row of decimal digits, reduced to 64 bits with every digit. Other
characters are passed over. -/
def wrappedValue (digits : List Char) : UInt64 :=
  (digits.filter Char.isDigit).foldl
    (fun value digit => value * 10 + (digit.toNat - '0'.toNat).toUInt64) 0

/-- The integer that a row of digits denotes, narrowed to the width asked for. -/
def ofDigits (digits : List Char) (long : Bool) : Number :=
  let value := wrappedValue digits
  if long then .long value.toInt64 else .int value.toUInt32.toInt32

/-- Whether a number is zero of its kind. -/
def isZero : Number → Bool
  | int value => value == 0
  | long value => value == 0
  | double value => value == 0.0

/-- A number as a double, rounded to the nearest if need be. -/
def toDouble : Number → Float
  | int value => value.toFloat
  | long value => value.toFloat
  | double value => value

/-- Two numbers brought to one kind. -/
inductive Pair where
  | ints (left right : Int32)
  | longs (left right : Int64)
  | doubles (left right : Float)

/-- Bring two numbers to the wider of their kinds. -/
def promote : Number → Number → Pair
  | int left, int right => .ints left right
  | int left, long right => .longs left.toInt64 right
  | long left, int right => .longs left right.toInt64
  | long left, long right => .longs left right
  | left, right => .doubles left.toDouble right.toDouble

/-- The sum, reduced to the kind's width. -/
def add (left right : Number) : Number :=
  match promote left right with
  | .ints l r => int (l + r)
  | .longs l r => long (l + r)
  | .doubles l r => double (l + r)

/-- The difference, reduced to the kind's width. -/
def sub (left right : Number) : Number :=
  match promote left right with
  | .ints l r => int (l - r)
  | .longs l r => long (l - r)
  | .doubles l r => double (l - r)

/-- The product, reduced to the kind's width. -/
def mul (left right : Number) : Number :=
  match promote left right with
  | .ints l r => int (l * r)
  | .longs l r => long (l * r)
  | .doubles l r => double (l * r)

/-- The opposite number, reduced to its own width. -/
def neg : Number → Number
  | int value => int (-value)
  | long value => long (-value)
  | double value => double (-value)

/-- The quotient. Integers truncate toward zero and refuse the divisor zero. -/
def div (left right : Number) : Except ArithmeticError Number :=
  match promote left right with
  | .ints l r => if r = 0 then .error .divisionByZero else .ok (int (l / r))
  | .longs l r => if r = 0 then .error .divisionByZero else .ok (long (l / r))
  | .doubles l r => .ok (double (l / r))

/-- The remainder of doubles with the sign of the divisor: the truncated one, moved
by one divisor if it lies on the other side of zero. -/
def doubleRem (left right : Float) : Float :=
  let rest := Binary.remainder left right
  if rest != 0.0 && decide (rest < 0.0) != decide (right < 0.0) then rest + right else rest

/-- The remainder of integers with the sign of the divisor, found in the same way. -/
def floorRem (left right : Int64) : Int64 :=
  let rest := left % right
  if rest != 0 && decide (rest < 0) != decide (right < 0) then rest + right else rest

/-- The remainder, which takes the sign of the divisor. Integers refuse the
divisor zero, and narrow ones are divided at the greater width. -/
def rem (left right : Number) : Except ArithmeticError Number :=
  match promote left right with
  | .ints l r =>
    if r = 0 then .error .divisionByZero
    else .ok (int (floorRem l.toInt64 r.toInt64).toInt32)
  | .longs l r => if r = 0 then .error .divisionByZero else .ok (long (floorRem l r))
  | .doubles l r => .ok (double (doubleRem l r))

/-- The order of two doubles, which an undefined one does not have. -/
def doubleOrder (left right : Float) : Option Ordering :=
  if left < right then some .lt
  else if left == right then some .eq
  else if right < left then some .gt
  else none

/-- The order of two numbers, if they have one. -/
def order (left right : Number) : Option Ordering :=
  match promote left right with
  | .ints l r => some (compare l r)
  | .longs l r => some (compare l r)
  | .doubles l r => doubleOrder l r

end Number

end Script

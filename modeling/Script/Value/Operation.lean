/-
# Operations on values

What operators do with values. Arithmetic is for numbers; strings and lists can
also be joined and repeated. Two values are equal for the language if they are of
one kind and have one quoted form. Comparison is for numbers and for strings, and
fails to hold, whichever it is, if a number is undefined.
-/

import Script.Syntax.Operator
import Script.Value.Display

namespace Script

/-- Why an operation on values has no result. -/
inductive OperationError where
  | binary (operator : BinaryOperator) (left right : TypeTag)
  | unary (operator : UnaryOperator) (kind : TypeTag)
  | index (container key : TypeTag)
  | repeatTooLarge
  | divisionByZero
  deriving DecidableEq

/-- The reason as a reader sees it. -/
def OperationError.message : OperationError → String
  | binary operator left right =>
    "binary operator '" ++ operator.symbol ++ "' cannot be applied to operands of type " ++
      left.name ++ " and " ++ right.name
  | unary operator kind =>
    "unary operator '" ++ operator.symbol ++ "' cannot be applied to operand of type " ++ kind.name
  | index container key =>
    "value of type " ++ container.name ++ " cannot be indexed by " ++ key.name
  | repeatTooLarge => "repeat count too large"
  | divisionByZero => "division by zero"

/-- The reason why arithmetic fails, for values. -/
def ArithmeticError.ofNumbers : ArithmeticError → OperationError
  | divisionByZero => .divisionByZero

namespace Value

/-- Whether two values are equal for the language. -/
def equals (heap : Heap) (left right : Value) : Bool :=
  left.tag = right.tag && left.repr heap == right.repr heap

/-- An operation on numbers, for values that are numbers. -/
def numeric (operator : BinaryOperator)
    (operation : Number → Number → Except ArithmeticError Number) (left right : Value) :
    Except OperationError Value :=
  match left, right with
  | number l, number r =>
    match operation l r with
    | .ok result => .ok (number result)
    | .error error => .error error.ofNumbers
  | _, _ => .error (.binary operator left.tag right.tag)

/-- The sum of numbers, or strings or lists joined. -/
def add (left right : Value) : Except OperationError Value :=
  match left, right with
  | string l, string r => .ok (string (l ++ r))
  | list l, list r => .ok (list (l ++ r))
  | _, _ => numeric .add (fun l r => .ok (l.add r)) left right

/-- The most bytes of a string, or elements of a list, that a repetition gives. -/
def maxRepeat : Nat := Nat.pow 2 28

/-- The size of a unit a number of times, if a size can be that great and a repetition may. -/
def repeatedSize? (unit count : Nat) : Option Nat :=
  let size := if unit * count < Nat.pow 2 64 then some (unit * count) else none
  size.filter (· ≤ maxRepeat)

/-- A text a number of times. -/
def repeatText (text : String) (count : Nat) : String :=
  if text.isEmpty then "" else Nat.repeat (· ++ text) count ""

/-- The items of a row from some of them on, in front of which others were taken. Where the
row ends it begins again, until the items are as many as asked for. -/
def takeAround (items : List Value) : List Value → Nat → List Value → List Value
  | _, 0, taken => taken.reverse
  | item :: rest, size + 1, taken => takeAround items rest size (item :: taken)
  | [], size + 1, taken =>
    match items with
    | [] => taken.reverse
    | item :: rest => takeAround items rest size (item :: taken)

/-- The product of numbers, or a string or list repeated. A negative count repeats
nothing. -/
def multiply (left right : Value) : Except OperationError Value :=
  match left, right.integer? with
  | string text, some count =>
    match repeatedSize? text.utf8ByteSize count.toNatClampNeg with
    | some _ => .ok (string (repeatText text count.toNatClampNeg))
    | none => .error .repeatTooLarge
  | list items, some count =>
    match repeatedSize? items.length count.toNatClampNeg with
    | some size => .ok (list (takeAround items items size []))
    | none => .error .repeatTooLarge
  | _, _ => numeric .multiply (fun l r => .ok (l.mul r)) left right

/-- Whether an order that may not exist passes a test. -/
def compares (operator : BinaryOperator) (test : Ordering → Bool) (left right : Value) :
    Except OperationError Value :=
  match left, right with
  | string l, string r => .ok (boolean (test (compare l r)))
  | number l, number r => .ok (boolean ((l.order r).any test))
  | _, _ => .error (.binary operator left.tag right.tag)

/-- What an operator gives for two values. -/
def apply (heap : Heap) (operator : BinaryOperator) (left right : Value) :
    Except OperationError Value :=
  match operator with
  | .add => add left right
  | .subtract => numeric .subtract (fun l r => .ok (l.sub r)) left right
  | .multiply => multiply left right
  | .divide => numeric .divide Number.div left right
  | .modulo => numeric .modulo Number.rem left right
  | .equal => .ok (boolean (equals heap left right))
  | .notEqual => .ok (boolean (!equals heap left right))
  | .less => compares .less Ordering.isLT left right
  | .lessEqual => compares .lessEqual Ordering.isLE left right
  | .greater => compares .greater Ordering.isGT left right
  | .greaterEqual => compares .greaterEqual Ordering.isGE left right
  | .and => .ok (boolean (left.isTruthy && right.isTruthy))
  | .or => .ok (boolean (left.isTruthy || right.isTruthy))

/-- What an operator before a value gives. -/
def applyUnary (operator : UnaryOperator) (operand : Value) : Except OperationError Value :=
  match operator, operand with
  | .not, _ => .ok (boolean (!operand.isTruthy))
  | .negate, number value => .ok (number value.neg)
  | .plus, number value => .ok (number value)
  | _, _ => .error (.unary operator operand.tag)

/-- The place that an index denotes in a row of a given length, if an index can be that
great. A negative index counts from the end. -/
def place? (length : Nat) (index : Int64) : Option Nat :=
  if length < Nat.pow 2 63 then
    let size := Int64.ofNat length
    let place := if index < 0 then index + size else index
    if 0 ≤ place ∧ place < size then some place.toNatClampNeg else none
  else none

/-- What a value holds at a key: an element of a list, a character of a string, or a
member of a namespace. Where there is none it is nil. -/
def index (heap : Heap) (object key : Value) : Except OperationError Value :=
  match object, key, key.integer? with
  | list items, _, some place =>
    .ok (((place? items.length place).bind (items[·]?)).getD nil)
  | string text, _, some place =>
    let characters := text.toList
    let character := (place? characters.length place).bind (characters[·]?)
    .ok (character.elim nil fun character => string character.toString)
  | space _ frame, string name, _ => .ok ((heap.binding? frame name).elim nil (·.value))
  | _, _, _ => .error (.index object.tag key.tag)

end Value

end Script

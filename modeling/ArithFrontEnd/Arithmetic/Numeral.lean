import ArithFrontEnd.Arithmetic.Value

/-!
# Numerals

A numeral is a text of decimal digits, at least one, with an optional sign in front. It is read from
the left, digit by digit, and the first difficulty met decides what is wrong with a text that has no
value.

## Main definitions

* `Numeral.read` — the value of a text, or why it has none.
* `Numeral.value?` — the value of a text that has one.
-/

namespace ArithFrontEnd.Numeral

/-- Why a text is not the numeral of a value. -/
inductive Error
  /-- The text is empty. -/
  | empty
  /-- A character is no digit, or there is a sign only. -/
  | invalidDigit
  /-- The digits read so far exceed the largest value. -/
  | tooLarge
  /-- The digits read so far are below the smallest value. -/
  | tooSmall
  deriving DecidableEq, Repr

/-- What is said of a text without a value. -/
def Error.message : Error → String
  | .empty => "cannot parse integer from empty string"
  | .invalidDigit => "invalid digit found in string"
  | .tooLarge => "number too large to fit in target type"
  | .tooSmall => "number too small to fit in target type"

/-- The digit that a character stands for. -/
def digit? (c : Char) : Option Nat :=
  if c.isDigit then some (c.toNat - '0'.toNat) else none

/-- Read digits after a part whose value is `v`. The digits of a negative numeral count downwards,
so that the smallest value has a numeral. -/
def readDigits (negative : Bool) (v : Value) : List Char → Except Error Value
  | [] => .ok v
  | c :: cs =>
    match digit? c with
    | none => .error .invalidDigit
    | some d =>
      match Value.ofInt? (10 * v.toInt + if negative then -(d : Int) else d) with
      | none => .error (if negative then .tooSmall else .tooLarge)
      | some v' => readDigits negative v' cs

/-- Read the digits after a sign, of which there has to be one. -/
def readSigned (negative : Bool) : List Char → Except Error Value
  | [] => .error .invalidDigit
  | c :: cs => readDigits negative 0 (c :: cs)

/-- Read a numeral. -/
def read (text : String) : Except Error Value :=
  match text.toList with
  | [] => .error .empty
  | '+' :: cs => readSigned false cs
  | '-' :: cs => readSigned true cs
  | c :: cs => readDigits false 0 (c :: cs)

/-- The value of a text that is a numeral. -/
def value? (text : String) : Option Value :=
  (read text).toOption

/-- The text is the numeral of a value. -/
def isNumeral (text : String) : Bool :=
  (value? text).isSome

end ArithFrontEnd.Numeral

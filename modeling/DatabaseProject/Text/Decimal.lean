import DatabaseProject.Text.Blank

/-!
# Decimal 32-bit integers

An integer is written as an optional sign and one or more ASCII digits, between any white space.
A value outside the 32-bit range is no integer.
-/

namespace DatabaseProject.Text.Decimal

/-- The value of a digit. -/
def digit? (c : Char) : Option Nat :=
  if '0' ≤ c ∧ c ≤ '9' then some (c.toNat - '0'.toNat) else none

/-- Reads digits behind a number already read. -/
def natFrom? (value : Nat) : List Char → Option Nat
  | [] => some value
  | c :: cs => (digit? c).bind fun d => natFrom? (10 * value + d) cs

/-- The value of one or more digits. -/
def nat? : List Char → Option Nat
  | [] => none
  | cs => natFrom? 0 cs

/-- The value of an optional sign and digits. -/
def int? : List Char → Option Int
  | '-' :: cs => (nat? cs).map fun n => -(n : Int)
  | '+' :: cs => (nat? cs).map fun n => (n : Int)
  | cs => (nat? cs).map fun n => (n : Int)

/-- The 32-bit word of a number, if it fits. -/
def int32OfInt? (n : Int) : Option Int32 :=
  if Int32.minValue.toInt ≤ n ∧ n ≤ Int32.maxValue.toInt then some (Int32.ofInt n) else none

/-- The 32-bit integer that a text writes. -/
def int32? (text : String) : Option Int32 :=
  (int? (trimmed text.toList)).bind int32OfInt?

end DatabaseProject.Text.Decimal

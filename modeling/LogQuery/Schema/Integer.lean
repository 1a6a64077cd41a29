import LogQuery.Arithmetic.Binary64
import LogQuery.Arithmetic.Decimal
import LogQuery.Text.Integer
import LogQuery.Schema.Codec
/-!
# Codecs of whole numbers

Where a whole number is expected, truth values count as one and zero, a number without fraction
counts as whole, and texts are read.
-/

namespace LogQuery.Schema

/-- A number with a fraction or exponent, as it is stored: rounded, and whole or not. -/
def wholeOf (m e : Int) : Checked Int :=
  if m = 0 then .ok 0
  else if 400 < Decimal.size m e then .reject .notFinite
  else if Decimal.size m e < -400 then .ok 0
  else
    let q := Decimal.value m e
    if Binary64.isOverflow q then .reject .notFinite
    else
      let r := Binary64.round q
      if r.den ≠ 1 then .reject .fractional
      else if 9223372036854775808 ≤ r.num.natAbs then .reject .oversizedInteger
      else .ok r.num

def readIntegerText (s : String) : Checked Int :=
  match Text.readInteger s with
  | .ok n => .ok n
  | .error .unreadable => .reject .unreadableInteger
  | .error .oversized => .reject .oversizedInteger

def readInteger : Json → Checked Int
  | .bool b => .ok (if b then 1 else 0)
  | .number (.int n) => .ok n
  | .number (.decimal m e) => wholeOf m e
  | .number _ => .reject .notFinite
  | .string s => readIntegerText s
  | _ => .reject .notInteger

/-- A whole number from `low` to `high`. -/
def integerBetween (low high : Int) : Codec Int where
  read v := (readInteger v).andThen fun n =>
    if n < low then .reject .tooSmall
    else if high < n then .reject .tooLarge
    else .ok n
  write _ n := .int n

end LogQuery.Schema

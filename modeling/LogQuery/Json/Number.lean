import LogQuery.Json.Basic
/-!
# Numbers in JSON

The grammar of a number on its characters: a sign, a whole part without leading zeros, a fraction,
an exponent. Only a number without fraction and exponent is whole.
-/

namespace LogQuery

def digitValue (c : Char) : Nat := c.toNat - '0'.toNat

/-- The number that a row of decimal digits denotes. -/
def ofDigits (cs : List Char) : Nat :=
  cs.foldl (fun n c => 10 * n + digitValue c) 0

namespace Number

/-- What may follow the mantissa: nothing, or an `e`, a sign and at least one digit. -/
def exponent? : List Char → Option (Option Int)
  | [] => some none
  | e :: cs =>
    if e = 'e' ∨ e = 'E' then
      let (negative, ds) := match cs with
        | '-' :: ds => (true, ds)
        | '+' :: ds => (false, ds)
        | ds => (false, ds)
      if ds ≠ [] ∧ ds.all Char.isDigit then
        some (some (if negative then -(ofDigits ds : Int) else ofDigits ds))
      else none
    else none

/-- The digits after a point, if there is one, and what follows them. -/
def fraction? : List Char → Option (Option (List Char) × List Char)
  | '.' :: cs =>
    let ds := cs.takeWhile Char.isDigit
    if ds = [] then none else some (some ds, cs.dropWhile Char.isDigit)
  | cs => some (none, cs)

def ofMagnitude? (negative : Bool) (cs : List Char) : Option Number := do
  let whole := cs.takeWhile Char.isDigit
  guard (whole ≠ [] ∧ (whole.length = 1 ∨ whole.head? ≠ some '0'))
  let (fraction, rest) ← fraction? (cs.dropWhile Char.isDigit)
  let exponent ← exponent? rest
  let signed (n : Nat) : Int := if negative then -n else n
  match fraction, exponent with
  | none, none => return .int (signed (ofDigits whole))
  | _, _ =>
    let digits := fraction.getD []
    return .decimal (signed (ofDigits (whole ++ digits))) (exponent.getD 0 - digits.length)

/-- What stands before the fraction and the exponent. -/
def wholePart (cs : List Char) : List Char := cs.takeWhile fun c => c = '-' || c.isDigit

/-- The number that the characters spell. -/
def ofChars? : List Char → Option Number
  | '-' :: cs => ofMagnitude? true cs
  | cs => ofMagnitude? false cs

end Number

end LogQuery

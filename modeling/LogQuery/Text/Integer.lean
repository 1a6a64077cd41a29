import LogQuery.Json.Number
import LogQuery.Text.Blank
import LogQuery.Text.Split
/-!
# Whole numbers written as text

The reading of configured numbers. Space at the ends, a plus sign, zeros in front, a fraction of zeros
and underscores are dropped, in this order; what is left is read as a plain whole number.
-/

namespace LogQuery.Text

inductive IntegerError
  | unreadable
  | oversized
  deriving DecidableEq, Repr

/-- Drops a plus sign that no minus sign follows. -/
def dropPlus : List Char → List Char
  | '+' :: '-' :: cs => '+' :: '-' :: cs
  | '+' :: cs => cs
  | cs => cs

/-- Drops zeros in front, with the underscores after and among them. Where neither a digit nor a minus
sign follows, the last of these characters stays, so that `000` is a zero and `0_` is no number. -/
def dropLeadingZeros : List Char → List Char
  | '0' :: cs => after '0' cs
  | cs => cs
where
  after (last : Char) : List Char → List Char
    | [] => [last]
    | c :: cs =>
      if c = '0' ∨ c = '_' then after c cs
      else if c.isDigit ∨ c = '-' then c :: cs
      else last :: c :: cs

/-- Drops a point that one or more zeros follow to the end, and them. -/
def dropZeroFraction (cs : List Char) : List Char :=
  match cs.dropWhile (· ≠ '.') with
  | [] => cs
  | _ :: zeros => if zeros ≠ [] ∧ zeros.all (· = '0') then cs.takeWhile (· ≠ '.') else cs

/-- Drops the underscores if each stands alone between two other characters. -/
def dropUnderscores (cs : List Char) : List Char :=
  let parts := cs.splitOn '_'
  if [] ∈ parts then cs else parts.flatten

/-- A minus sign or none, and digits, of which the first is a zero only if it is alone. More than 4300
characters are not read, whatever follows them. -/
def readPlainInteger (cs : List Char) : Except IntegerError Int :=
  let (negative, cs) := match cs with
    | '-' :: cs => (true, cs)
    | cs => (false, cs)
  let ds := cs.takeWhile Char.isDigit
  if ds = [] ∨ (ds.head? = some '0' ∧ ds ≠ ['0']) then .error .unreadable
  else if 4300 < (if negative then 1 else 0) + ds.length then .error .oversized
  else if ds ≠ cs then .error .unreadable
  else .ok (if negative then -(ofDigits ds : Int) else ofDigits ds)

def readInteger (s : String) : Except IntegerError Int :=
  readPlainInteger <| dropUnderscores <| dropZeroFraction <| dropLeadingZeros <| dropPlus <|
    trim isSpace s.toList

end LogQuery.Text

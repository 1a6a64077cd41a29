/-!
# Rounding to binary64

Arithmetic in double precision, as exact arithmetic on rationals followed by `round`: the nearest
number with 53 significant bits, and of two equally near ones the even one.
-/

namespace LogQuery.Binary64

/-- `2 ^ k`. -/
def power (k : Int) : Rat :=
  if 0 ≤ k then mkRat (1 <<< k.toNat : Nat) 1 else mkRat 1 (1 <<< (-k).toNat)

/-- The nearest whole number; halfway the even one. -/
def nearest (q : Rat) : Int :=
  let n := q.floor
  let rest := q - (n : Rat)
  let half := mkRat 1 2
  if rest < half then n
  else if half < rest then n + 1
  else if n % 2 = 0 then n
  else n + 1

/-- The exponent of the leading bit of `num / den`. -/
def leading (num den : Nat) : Int :=
  let k : Int := (num.log2 : Int) - den.log2
  if power k ≤ mkRat num den then k else k - 1

/-- The distance of the numbers around `q`. -/
def spacing (q : Rat) : Rat :=
  power (max (leading q.num.natAbs q.den - 52) (-1074))

def round (q : Rat) : Rat :=
  if q.num = 0 then q else (nearest (q / spacing q) : Rat) * spacing q

/-- The whole part, toward zero. -/
def truncate (q : Rat) : Int := q.num.tdiv q.den

/-- Too large to be a finite number. -/
def isOverflow (q : Rat) : Bool := power 1024 ≤ round (if q < 0 then -q else q)

end LogQuery.Binary64

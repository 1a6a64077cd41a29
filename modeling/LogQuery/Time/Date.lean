/-!
# Dates

Dates of the Gregorian calendar, extended backwards to the year 0, and their number of days since
1970-01-01.
-/

namespace LogQuery.Time

def isLeap (year : Nat) : Bool :=
  year % 4 = 0 && (year % 100 ≠ 0 || year % 400 = 0)

def daysIn (year month : Nat) : Nat :=
  if month = 2 then (if isLeap year then 29 else 28)
  else if month = 4 || month = 6 || month = 9 || month = 11 then 30
  else 31

structure Date where
  year : Nat
  month : Nat
  day : Nat
  year_le : year ≤ 9999
  month_mem : 1 ≤ month ∧ month ≤ 12
  day_mem : 1 ≤ day ∧ day ≤ daysIn year month
  deriving DecidableEq

namespace Date

def ofParts? (year month day : Nat) : Option Date :=
  if h : year ≤ 9999 ∧ (1 ≤ month ∧ month ≤ 12) ∧ (1 ≤ day ∧ day ≤ daysIn year month) then
    some ⟨year, month, day, h.1, h.2.1, h.2.2⟩
  else none

/-- The leap days before the year. -/
def leapDaysBefore (year : Nat) : Int :=
  let y : Int := (year : Int) - 1
  y / 4 - y / 100 + y / 400

/-- The days of the year before the month. -/
def daysBeforeMonth (year : Nat) : Nat → Nat
  | 0 => 0
  | month + 1 => daysBeforeMonth year month + (if month = 0 then 0 else daysIn year month)

/-- The day number of the day before the year. -/
def yearOrigin (year : Nat) : Int := 365 * (year : Int) + leapDaysBefore year - 719528

/-- Days since 1970-01-01. -/
def dayNumber (d : Date) : Int := yearOrigin d.year + daysBeforeMonth d.year d.month + d.day

/-- The date with that day number, from the year 0 to the year 9999. The year is the last one of
three around the mean that has begun, the month the last one of it that has. -/
def ofDayNumber? (n : Int) : Option Date := do
  let mean := (400 * (n + 719528) / 146097).toNat
  let year ← [mean + 1, mean, mean - 1].find? fun y => yearOrigin y < n
  let days := (n - yearOrigin year).toNat
  let month ← [12, 11, 10, 9, 8, 7, 6, 5, 4, 3, 2, 1].find? fun m => daysBeforeMonth year m < days
  ofParts? year month (days - daysBeforeMonth year month)

end Date

end LogQuery.Time

import LogQuery.Time.Date
import LogQuery.Arithmetic.Binary64
/-!
# Timestamps

A date and a time of day to the microsecond, with or without an offset from UTC. A timestamp without
one is on the local clock, which shows UTC. Its nanoseconds are computed in double precision
(`nanoseconds`), if it can be placed at all (`nanoseconds?`).
-/

namespace LogQuery.Time

/-- Minutes east of UTC, less than a day. -/
structure Offset where
  minutes : Int
  bounded : minutes.natAbs < 1440
  deriving DecidableEq

def Offset.utc : Offset := ⟨0, by decide⟩

structure Timestamp where
  date : Date
  hour : Fin 24
  minute : Fin 60
  second : Fin 60
  micro : Fin 1000000
  offset : Option Offset
  deriving DecidableEq

namespace Timestamp

/-- Whole seconds since 1970-01-01 by the clock of the timestamp. -/
def clockSeconds (t : Timestamp) : Int :=
  86400 * t.date.dayNumber + 3600 * (t.hour.val : Int) + 60 * (t.minute.val : Int)
    + (t.second.val : Int)

/-- Microseconds since 1970-01-01 in UTC. -/
def instant (t : Timestamp) : Int :=
  1000000 * (t.clockSeconds - 60 * (t.offset.map Offset.minutes).getD 0) + (t.micro.val : Int)

/-- Seconds in double precision. With an offset the microseconds are divided once; without one the
fraction is divided and added to the whole seconds. -/
def seconds (t : Timestamp) : Rat :=
  match t.offset with
  | some _ => Binary64.round (mkRat t.instant 1000000)
  | none => Binary64.round
      (Binary64.round (mkRat t.clockSeconds 1) + Binary64.round (mkRat (t.micro.val : Int) 1000000))

def nanoseconds (t : Timestamp) : Int :=
  Binary64.truncate (Binary64.round (t.seconds * mkRat 1000000000 1))

/-- A time of the local clock, which shows UTC, is placed by what the clock has shown a day before,
to tell whether it was changed since. On the first day of the year 1 there is no day before. -/
def isPlaced (t : Timestamp) : Bool := t.offset.isSome || Date.yearOrigin 1 + 1 < t.date.dayNumber

def nanoseconds? (t : Timestamp) : Option Int := if t.isPlaced then some t.nanoseconds else none

def midnight (d : Date) : Timestamp := ⟨d, 0, 0, 0, 0, none⟩

/-- The time in UTC, that many microseconds after 1970-01-01. -/
def ofInstant? (micros : Int) : Option Timestamp := do
  let seconds := micros / 1000000
  let date ← Date.ofDayNumber? (seconds / 86400)
  let clock := (seconds % 86400).toNat
  return ⟨date, Fin.ofNat 24 (clock / 3600), Fin.ofNat 60 (clock / 60), Fin.ofNat 60 clock,
    Fin.ofNat 1000000 (micros % 1000000).toNat, some Offset.utc⟩

/-! ## Unix time -/

/-- Numbers above this are milliseconds, numbers up to it seconds. -/
def millisecondsAbove : Nat := 20000000000

/-- The time that a whole Unix time stands for. -/
def ofUnix? (n : Int) : Option Timestamp :=
  ofInstant? (if n.natAbs ≤ millisecondsAbove then 1000000 * n else 1000 * n)

/-- The time that a Unix time with a fraction stands for: a number in double precision, of which the
fraction of a second goes to the nearest microsecond. This is the rule that is documented. Readers
depart from it for numbers below 0 with a fraction, and for those that are above the bound by less
than 1. -/
def ofUnixFraction? (q : Rat) : Option Timestamp :=
  let x := Binary64.round q
  let bound := mkRat (millisecondsAbove : Int) 1
  let seconds := if x < -bound ∨ bound < x then Binary64.round (x / mkRat 1000 1) else x
  let whole := seconds.floor
  let micros := Binary64.round ((seconds - (whole : Rat)) * mkRat 1000000 1)
  ofInstant? (1000000 * whole + (micros + mkRat 1 2).floor)

end Timestamp

end LogQuery.Time

import LogQuery.Time.Timestamp
import LogQuery.Arithmetic.Decimal
import LogQuery.Json.Number
/-!
# The notation of timestamps

The reader for dates with times, dates alone and Unix times, and the printer. The reader
takes four separators and five forms of a zone, the printer writes one form.
-/

namespace LogQuery.Time

/-- Exactly `n` decimal digits, and what follows them. -/
def readDigits? (n : Nat) (cs : List Char) : Option (Nat × List Char) :=
  let ds := cs.take n
  if ds.length = n ∧ ds.all Char.isDigit then some (ofDigits ds, cs.drop n) else none

def readChar? (inClass : Char → Bool) : List Char → Option (List Char)
  | [] => none
  | c :: cs => if inClass c then some cs else none

def readDate? (cs : List Char) : Option (Date × List Char) := do
  let (year, cs) ← readDigits? 4 cs
  let cs ← readChar? (· = '-') cs
  let (month, cs) ← readDigits? 2 cs
  let cs ← readChar? (· = '-') cs
  let (day, cs) ← readDigits? 2 cs
  let date ← Date.ofParts? year month day
  return (date, cs)

/-- A number of two digits below `bound`. -/
def readBelow? (bound : Nat) (cs : List Char) : Option (Fin bound × List Char) := do
  let (n, cs) ← readDigits? 2 cs
  if h : n < bound then return (⟨n, h⟩, cs) else none

/-- The first six digits of a fraction, as millionths. -/
def millionths (ds : List Char) : Nat :=
  ofDigits ((ds ++ List.replicate 6 '0').take 6)

/-- The fraction of a second, if there is one. -/
def readFraction? : List Char → Option (Fin 1000000 × List Char)
  | [] => some (⟨0, by decide⟩, [])
  | c :: cs =>
    if c = '.' ∨ c = ',' then
      let ds := cs.takeWhile Char.isDigit
      if ds = [] then none
      else some (⟨millionths ds % 1000000, Nat.mod_lt _ (by decide)⟩, cs.dropWhile Char.isDigit)
    else some (⟨0, by decide⟩, c :: cs)

/-- Seconds and their fraction, if there are any. -/
def readSeconds? : List Char → Option (Fin 60 × Fin 1000000 × List Char)
  | ':' :: cs => do
    let (second, cs) ← readBelow? 60 cs
    let (micro, cs) ← readFraction? cs
    return (second, micro, cs)
  | cs => some (⟨0, by decide⟩, ⟨0, by decide⟩, cs)

def offsetOf (east : Bool) (hour : Fin 24) (minute : Fin 60) : Offset :=
  let n : Nat := 60 * hour.val + minute.val
  ⟨if east then n else -n, by
    have := hour.isLt
    have := minute.isLt
    dsimp only [n]
    split <;> omega⟩

/-- The zone that a text ends with, if there is one. -/
def readZone? : List Char → Option (Option Offset)
  | [] => some none
  | c :: cs =>
    if c = 'Z' ∨ c = 'z' then if cs = [] then some (some Offset.utc) else none
    else if c = '+' ∨ c = '-' ∨ c = '\u2212' then do
      let (hour, cs) ← readBelow? 24 cs
      let cs := match cs with
        | ':' :: cs => cs
        | cs => cs
      let (minute, cs) ← readBelow? 60 cs
      if cs = [] then some (some (offsetOf (c = '+') hour minute)) else none
    else none

def isDateTimeSeparator (c : Char) : Bool := c = 'T' || c = 't' || c = ' ' || c = '_'

/-- A date and a time of day. -/
def readDateTime? (cs : List Char) : Option Timestamp := do
  let (date, cs) ← readDate? cs
  let cs ← readChar? isDateTimeSeparator cs
  let (hour, cs) ← readBelow? 24 cs
  let cs ← readChar? (· = ':') cs
  let (minute, cs) ← readBelow? 60 cs
  let (second, micro, cs) ← readSeconds? cs
  let offset ← readZone? cs
  return ⟨date, hour, minute, second, micro, offset⟩

/-- A Unix time as it is written: a whole number, or one with a point. -/
inductive UnixTime
  | whole (n : Int)
  | fractional (q : Rat)

def UnixTime.timestamp? : UnixTime → Option Timestamp
  | whole n => Timestamp.ofUnix? n
  | fractional q => Timestamp.ofUnixFraction? q

/-- A sign, digits and a fraction. Digits may be missing on one side of the point. -/
def readUnix? (cs : List Char) : Option UnixTime :=
  let (negative, cs) := match cs with
    | '-' :: cs => (true, cs)
    | '+' :: cs => (false, cs)
    | cs => (false, cs)
  let signed (ds : List Char) : Int := if negative then -(ofDigits ds : Int) else ofDigits ds
  let ds := cs.takeWhile Char.isDigit
  match cs.dropWhile Char.isDigit with
  | [] => if ds = [] then none else some (.whole (signed ds))
  | '.' :: fs =>
    if (ds ++ fs).isEmpty || !fs.all Char.isDigit then none
    else some (.fractional (Decimal.value (signed (ds ++ fs)) (-(fs.length : Int))))
  | _ => none

inductive ReadError
  | unreadable
  /-- Well written, but of no year from 1 to 9999. -/
  | impossible
  deriving DecidableEq, Repr

def sinceYearOne (t : Timestamp) : Except ReadError Timestamp :=
  if t.date.year = 0 then .error .impossible else .ok t

/-- The timestamp of the characters, the year 0 included: a date with a time, a Unix time, or a date
alone. -/
def readChars? (cs : List Char) : Option Timestamp :=
  (readDateTime? cs).or <| ((readUnix? cs).bind UnixTime.timestamp?).or <|
    match readDate? cs with
    | some (d, []) => some (Timestamp.midnight d)
    | _ => none

/-- The timestamp that a text denotes. A Unix time after the year 9999 or before the year 0 is
called unreadable. -/
def read (s : String) : Except ReadError Timestamp :=
  match readChars? s.toList with
  | some t => sinceYearOne t
  | none => .error .unreadable

/-- The timestamp of a Unix time. -/
def ofUnix (u : UnixTime) : Except ReadError Timestamp :=
  match u.timestamp? with
  | some t => sinceYearOne t
  | none => .error .impossible

/-! ## Printing -/

/-- The last `width` decimal digits of `n`. -/
def decimalDigits : (width n : Nat) → List Char
  | 0, _ => []
  | width + 1, n => decimalDigits width (n / 10) ++ [Char.ofNat ('0'.toNat + n % 10)]

def twoDigits (n : Nat) : List Char := decimalDigits 2 n

def Date.chars (d : Date) : List Char :=
  decimalDigits 4 d.year ++ '-' :: twoDigits d.month ++ '-' :: twoDigits d.day

def clockChars (t : Timestamp) : List Char :=
  twoDigits t.hour.val ++ ':' :: twoDigits t.minute.val ++ ':' :: twoDigits t.second.val

def Offset.chars (o : Offset) : List Char :=
  (if o.minutes < 0 then '-' else '+') :: twoDigits (o.minutes.natAbs / 60)
    ++ ':' :: twoDigits (o.minutes.natAbs % 60)

/-- The fraction has six digits or none; an offset of zero is written as `zero`. -/
def Timestamp.chars (zero : List Char) (t : Timestamp) : List Char :=
  t.date.chars ++ 'T' :: clockChars t
    ++ (if t.micro.val = 0 then [] else '.' :: decimalDigits 6 t.micro.val)
    ++ (match t.offset with
      | none => []
      | some o => if o.minutes = 0 then zero else o.chars)

/-- With `Z` for an offset of zero. -/
def Timestamp.text (t : Timestamp) : String := String.ofList (t.chars ['Z'])

/-- With every offset in digits. -/
def Timestamp.numericText (t : Timestamp) : String :=
  String.ofList (t.chars ['+', '0', '0', ':', '0', '0'])

end LogQuery.Time

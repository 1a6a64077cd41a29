import LogQuery.Time.Notation
import LogQuery.Schema.Integer
/-!
# Codecs of times
-/

namespace LogQuery

open Schema Codec Fields

namespace Schema

def readTimeText (s : String) : Checked Time.Timestamp :=
  match Time.read s with
  | .ok t => .ok t
  | .error .unreadable => .reject .unreadableTime
  | .error .impossible => .reject .impossibleTime

def readUnixTime (u : Time.UnixTime) : Checked Time.Timestamp :=
  match Time.ofUnix u with
  | .ok t => .ok t
  | .error _ => .reject .impossibleTime

def readUnixDecimal (m e : Int) : Checked Time.Timestamp :=
  if 400 < Decimal.size m e then .reject .impossibleTime
  else readUnixTime (.fractional (if Decimal.size m e < -400 then 0 else Decimal.value m e))

/-- A time as text or number. A whole number beyond all numbers of double precision is none. -/
def timestamp : Codec Time.Timestamp where
  read
    | .string s => readTimeText s
    | .number (.int n) =>
      if Binary64.isOverflow (mkRat n 1) then .reject .notTime else readUnixTime (.whole n)
    | .number (.decimal m e) => readUnixDecimal m e
    | .number _ => .reject .impossibleTime
    | _ => .reject .notTime
  write _ t := .string t.text

end Schema

/-- The window of a value lookup. -/
structure TimeWindow where
  start : Time.Timestamp
  stop : Time.Timestamp
  deriving DecidableEq

def TimeWindow.codec : Codec TimeWindow :=
  ((pair (required "start" timestamp) <| required "end" timestamp).map
    (fun (start, stop) => ⟨start, stop⟩) (fun w => (w.start, w.stop))).model

end LogQuery

import LogQuery.Log.Message
import LogQuery.Time.Notation
/-!
# Log lines

A log line is one JSON object. The time, level, logger and message come first, then the active span,
the error, and the attributes that the caller added.
-/

namespace LogQuery.Log

/-- The identity of a span: both numbers are positive, of 128 and 64 bits at most. -/
structure SpanContext where
  traceId : Nat
  spanId : Nat
  sampled : Bool

def SpanContext.isValid (c : SpanContext) : Bool :=
  0 < c.traceId && c.traceId.log2 < 128 && 0 < c.spanId && c.spanId.log2 < 64

structure LineInput where
  millis : Int
  level : String
  logger : String
  text : String
  args : List Json
  span : Option SpanContext
  exception : Option Exception
  extra : Json.Members

inductive LineError
  /-- An attribute that every record has already. -/
  | overwrites (name : String)
  | message (error : MessageError)
  deriving DecidableEq, Repr

def LineError.text : LineError → String
  | overwrites name => Text.quoted ("Attempt to overwrite " ++ Text.quoted name ++ " in LogRecord")
  | message e => e.message

/-- The attributes of every record, which no caller may set. -/
def ownAttributes : List String :=
  ["name", "msg", "args", "levelname", "levelno", "pathname", "filename", "module", "exc_info",
    "exc_text", "stack_info", "lineno", "funcName", "created", "msecs", "relativeCreated", "thread",
    "threadName", "processName", "process"]

/-- The attributes that are set when a record is formatted. -/
def formattedAttributes : List String := ["message", "asctime"]

/-- An attribute that a caller may set but no line shows. -/
def taskAttribute : String := "taskName"

/-- The milliseconds of 400 years, after which the calendar repeats. -/
def cycle : Int := 146097 * 86400000

/-- The time to the millisecond, in UTC. It is looked up in the cycle from 1970 on, so that no year
is out of range. -/
def clockText (millis : Int) : String :=
  match Time.Timestamp.ofInstant? (1000 * (millis % cycle)) with
  | some t => toString ((t.date.year : Int) + 400 * (millis / cycle))
      ++ String.ofList ('-' :: Time.twoDigits t.date.month ++ '-' :: Time.twoDigits t.date.day
        ++ ' ' :: Time.clockChars t ++ ',' :: Time.decimalDigits 3 (millis % 1000).toNat)
  | none => ""

def spanMembers (c : SpanContext) : Json.Members :=
  [("trace_id", .string (String.ofList (Text.hexDigits 32 c.traceId))),
    ("span_id", .string (String.ofList (Text.hexDigits 16 c.spanId))),
    ("sampled", .bool c.sampled)]

/-- The members of a line. An attribute of the caller takes the place of a member of its name. -/
def members (i : LineInput) (message : String) : Json.Members :=
  let base : Json.Members :=
    [("timestamp", .string (clockText i.millis)), ("level", .string i.level),
      ("logger", .string i.logger), ("message", .string message)]
  let span := match i.span with
    | some c => if c.isValid then spanMembers c else []
    | none => []
  let exception := match i.exception with
    | some e => [("exception", Json.string e.text)]
    | none => []
  let added := i.extra.filter fun m => m.1 ≠ taskAttribute
  added.foldl (fun ms m => Json.Members.set ms m.1 m.2) (base ++ span ++ exception)

def line (i : LineInput) : Except LineError String :=
  match List.find? (fun m => m.1 ∈ formattedAttributes ++ ownAttributes) i.extra with
  | some m => .error (.overwrites m.1)
  | none => match message i.text i.args with
    | .error e => .error (.message e)
    | .ok text => .ok ((Json.object (members i text)).render Json.spaced)

end LogQuery.Log

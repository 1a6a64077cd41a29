import LogQuery.Json.Reader
import LogQuery.Selector
import LogQuery.Time.Timestamp
import LogQuery.Text.Percent
import LogQuery.Fault
import LogQuery.Log
/-!
# Value lookups

The log store is asked over HTTP for the values of a label or a detected field. A failure of the
store degrades to no values and a log record. An address or a window that cannot be written is a
fault, and so is a body that is nested too deep to be read. The store is a function from requests to
replies, and the client may refuse any address, so that every behaviour of them is covered.
-/

namespace LogQuery

/-- A piece of work that was traced, with the attributes set until it ended. -/
structure Span where
  name : String
  attributes : Json.Members

namespace Lookup

/-- A request as it arrives: the path decoded, the parameters in the order sent. -/
structure Request where
  path : String
  params : List (String × String)
  deriving DecidableEq, Repr

/-- A reply, with the outcome of reading its body. -/
inductive Reply
  /-- No answer came, for the reason given. -/
  | failed (message : String)
  | answered (status : Nat) (body : Json.Reading)

/-- What an operation leaves behind, each in its order. -/
structure Trail where
  requests : List Request := []
  records : List Log.Record := []
  spans : List Span := []

def Trail.append (a b : Trail) : Trail :=
  ⟨a.requests ++ b.requests, a.records ++ b.records, a.spans ++ b.spans⟩

structure Outcome (α : Type) where
  result : Except Fault α
  trail : Trail

/-! ## Addresses -/

/-- The address of the store without slashes at its end. -/
structure Address where
  base : String
  deriving DecidableEq, Repr

def Address.ofUrl (url : String) : Address :=
  ⟨String.ofList (url.toList.reverse.dropWhile (· = '/')).reverse⟩

/-- What follows `://`. -/
def afterScheme : List Char → List Char
  | [] => []
  | ':' :: '/' :: '/' :: cs => cs
  | _ :: cs => afterScheme cs

/-- The path of the address; it stands before the path of every request. -/
def Address.path (a : Address) : String :=
  String.ofList ((afterScheme a.base.toList).dropWhile (· ≠ '/'))

def isControl (c : Char) : Bool := c.toNat < 0x20 || c.toNat = 0x7F

/-- The first control character of a path, with its position. -/
def control? (path : String) : Option Fault :=
  (path.toList.zipIdx.find? fun p => isControl p.1).map fun p => .controlCharacter p.1 p.2

/-- The segments so far, the latest first, after one more: a dot stays where it is, and two dots go
up, but not above the root. -/
def enterSegment (above : List (List Char)) (segment : List Char) : List (List Char) :=
  if segment = ['.'] then above
  else if segment = ['.', '.'] then if above = [] ∨ above = [[]] then above else above.drop 1
  else segment :: above

/-- A path without dot segments. -/
def withoutDots (path : String) : String :=
  String.ofList (['/'].intercalate ((path.toList.splitOn '/').foldl enterSegment []).reverse)

/-- How many characters an address may have. -/
def longestAddress : Nat := 65536

/-- Why no request can be written for a path, if none can. -/
def refusal? (path : String) : Option Fault :=
  if longestAddress < path.length then some .tooLong else control? path

/-- The log store and the client that reaches it. -/
structure Store where
  reply : Request → Reply
  /-- Why the client writes no request for a path with the parameters, if it does not. A client may
  refuse more paths than `refusal?`: those that are too long with their escapes, or with the
  parameters. -/
  refuses : String → List (String × String) → Option Fault := fun path _ => refusal? path

def request (a : Address) (path : String) (params : List (String × String)) : Request :=
  ⟨Text.Percent.decode (withoutDots (a.path ++ path)), params⟩

/-! ## Replies -/

/-- The standard phrase of a status; none if the status is not registered. -/
def phrase : Nat → String
  | 100 => "Continue"
  | 101 => "Switching Protocols"
  | 102 => "Processing"
  | 103 => "Early Hints"
  | 200 => "OK"
  | 201 => "Created"
  | 202 => "Accepted"
  | 203 => "Non-Authoritative Information"
  | 204 => "No Content"
  | 205 => "Reset Content"
  | 206 => "Partial Content"
  | 207 => "Multi-Status"
  | 208 => "Already Reported"
  | 226 => "IM Used"
  | 300 => "Multiple Choices"
  | 301 => "Moved Permanently"
  | 302 => "Found"
  | 303 => "See Other"
  | 304 => "Not Modified"
  | 305 => "Use Proxy"
  | 307 => "Temporary Redirect"
  | 308 => "Permanent Redirect"
  | 400 => "Bad Request"
  | 401 => "Unauthorized"
  | 402 => "Payment Required"
  | 403 => "Forbidden"
  | 404 => "Not Found"
  | 405 => "Method Not Allowed"
  | 406 => "Not Acceptable"
  | 407 => "Proxy Authentication Required"
  | 408 => "Request Timeout"
  | 409 => "Conflict"
  | 410 => "Gone"
  | 411 => "Length Required"
  | 412 => "Precondition Failed"
  | 413 => "Request Entity Too Large"
  | 414 => "Request-URI Too Long"
  | 415 => "Unsupported Media Type"
  | 416 => "Requested Range Not Satisfiable"
  | 417 => "Expectation Failed"
  | 418 => "I'm a teapot"
  | 421 => "Misdirected Request"
  | 422 => "Unprocessable Entity"
  | 423 => "Locked"
  | 424 => "Failed Dependency"
  | 425 => "Too Early"
  | 426 => "Upgrade Required"
  | 428 => "Precondition Required"
  | 429 => "Too Many Requests"
  | 431 => "Request Header Fields Too Large"
  | 451 => "Unavailable For Legal Reasons"
  | 500 => "Internal Server Error"
  | 501 => "Not Implemented"
  | 502 => "Bad Gateway"
  | 503 => "Service Unavailable"
  | 504 => "Gateway Timeout"
  | 505 => "HTTP Version Not Supported"
  | 506 => "Variant Also Negotiates"
  | 507 => "Insufficient Storage"
  | 508 => "Loop Detected"
  | 510 => "Not Extended"
  | 511 => "Network Authentication Required"
  | _ => ""

def statusClass (status : Nat) : String :=
  match status / 100 with
  | 1 => "Informational response"
  | 3 => "Redirect response"
  | 4 => "Client error"
  | 5 => "Server error"
  | _ => "Invalid status code"

/-- Why a reply has no values. -/
inductive Failure
  | transport (message : String)
  /-- The store does not know the endpoint. -/
  | unsupported (status : Nat)
  | refused (status : Nat)
  | notJson
  | notObject
  deriving DecidableEq, Repr

def isUnsupported (status : Nat) : Bool := status ∈ [404, 405, 501]

def isSuccess (status : Nat) : Bool := 200 ≤ status && status < 300

/-- In bodies a whole number may have 4300 digits, and a surrogate may stand alone. They may start
with a byte order mark. -/
def bodyLimits : Json.Limits where
  admits cs := decide (Number.wholePart cs ≠ cs ∨ (cs.filter Char.isDigit).length ≤ 4300)
  unpaired := true
  mark := true

/-- A body in a text, with room for so many open containers on the stack. -/
def readText (stack : Nat) (text : String) : Json.Reading :=
  Json.read { bodyLimits with stack := some stack } text

/-- What a reply is taken for. -/
inductive Finding
  | object (members : Json.Members)
  | failure (why : Failure)

/-- Whatever is wrong with a body is a failure, unless reading it takes all of the stack. -/
def examineBody : Json.Reading → Except Fault Finding
  | .ok (.object ms) => .ok (.object ms)
  | .ok _ => .ok (.failure .notObject)
  | .error (.tooDeep isList) => .error (.tooDeep isList)
  | .error _ => .ok (.failure .notJson)

def examine : Reply → Except Fault Finding
  | .failed message => .ok (.failure (.transport message))
  | .answered status body =>
    if isUnsupported status then .ok (.failure (.unsupported status))
    else if !isSuccess status then .ok (.failure (.refused status))
    else examineBody body

/-! ## Lookups -/

inductive Kind
  | label
  | field
  deriving DecidableEq, Repr

namespace Kind

def path (k : Kind) (key : String) : String :=
  match k with
  | label => "/loki/api/v1/label/" ++ key ++ "/values"
  | field => "/loki/api/v1/detected_field/" ++ key ++ "/values"

def endpoint : Kind → String
  | label => "label_values"
  | field => "detected_field_values"

/-- The member of the answer that holds the values. -/
def member : Kind → String
  | label => "data"
  | field => "values"

def attributeName : Kind → String
  | label => "loki.label"
  | field => "loki.field"

def spanName : Kind → String
  | label => "fetch_label_values"
  | field => "fetch_detected_field_values"

def message : Kind → String
  | label => "Fetched label values"
  | field => "Fetched detected field values"

end Kind

def Failure.record (k : Kind) (key : String) (f : Failure) : Log.Record :=
  let place : Json.Members :=
    [("endpoint", .string k.endpoint), ("path", .string (k.path key))]
  let error (message : String) : Log.Record :=
    { level := .error, logger := .lookup, message, fields := some place }
  match f with
  | .transport message => error ("Loki request failed: " ++ message)
  | .unsupported status =>
    { level := .warning, logger := .lookup
      message := "Loki endpoint not supported by the connected Loki version"
      fields := some [("endpoint", .string k.endpoint), ("status_code", .int status)] }
  | .refused status =>
    error ("Loki request failed: " ++ statusClass status ++ " '" ++ toString status ++ " "
      ++ phrase status ++ "'")
  | .notJson => error "Loki returned a non-JSON body: "
  | .notObject => error "Loki returned an unexpected JSON body"

/-- The values in the answer; a member that is missing or no list counts as an empty one. -/
def valuesOf (k : Kind) (ms : Json.Members) : List Json :=
  match Json.Members.find? ms k.member with
  | some (.array values) => values
  | _ => []

def Finding.values (k : Kind) : Finding → List Json
  | .object ms => valuesOf k ms
  | .failure _ => []

def Finding.records (k : Kind) (key : String) : Finding → List Log.Record
  | .object _ => []
  | .failure f => [f.record k key]

/-- A bound of a window as a parameter; none where the window is open. -/
def bound (name : String) : Option Time.Timestamp → Except Fault (List (String × String))
  | none => .ok []
  | some t => match t.nanoseconds? with
    | some n => .ok [(name, toString n)]
    | none => .error .noDayBefore

def window (start stop : Option Time.Timestamp) : Except Fault (List (String × String)) := do
  let first ← bound "start" start
  let last ← bound "end" stop
  return first ++ last

/-- Asks for the values of `key`. The span has the query from the start, and the number of values if
it comes to that. -/
def ask (store : Store) (a : Address) (k : Kind) (key query : String)
    (params : List (String × String)) : Outcome (List Json) :=
  let attributes : Json.Members := [(k.attributeName, .string key), ("logql.query", .string query)]
  match store.refuses (k.path key) params with
  | some fault => ⟨.error fault, { spans := [⟨k.spanName, attributes⟩] }⟩
  | none =>
    let asked := request a (k.path key) params
    match examine (store.reply asked) with
    | .error fault => ⟨.error fault, { requests := [asked], spans := [⟨k.spanName, attributes⟩] }⟩
    | .ok finding =>
      let values := finding.values k
      let count := Json.int values.length
      let fetched : Log.Record :=
        { level := .info, logger := .lookup, message := k.message
          fields := some [("key", .string key), ("count", count)] }
      ⟨.ok values,
        { requests := [asked]
          records := finding.records k key ++ [fetched]
          spans := [⟨k.spanName, attributes ++ [("loki.values_count", count)]⟩] }⟩

/-- A lookup with the parameters and those of its window. Without a window there is none, and the
span has nothing on it. -/
def fetch (store : Store) (a : Address) (k : Kind) (key query : String)
    (params : List (String × String)) (start stop : Option Time.Timestamp) : Outcome (List Json) :=
  match window start stop with
  | .ok more => ask store a k key query (params ++ more)
  | .error fault => ⟨.error fault, { spans := [⟨k.spanName, []⟩] }⟩

/-- The values of a label in the streams that the matchers select. -/
def labelValues (store : Store) (a : Address) (key : String) (ms : List Matcher)
    (start stop : Option Time.Timestamp) : Outcome (List Json) :=
  let selector := Selector.ofMatchers ms
  let query := if selector = "" then [] else [("query", selector)]
  fetch store a .label key selector query start stop

/-- The values of a detected field in the lines that the expression selects. -/
def fieldValues (store : Store) (a : Address) (key expr : String) (limit : Int)
    (start stop : Option Time.Timestamp) : Outcome (List Json) :=
  fetch store a .field key expr [("query", expr), ("limit", toString limit)] start stop

/-- Whether the store is ready to answer. -/
def ready (store : Store) (a : Address) : Bool × Trail :=
  let asked := request a "/ready" []
  match store.reply asked with
  | .failed message =>
    (false,
      { requests := [asked]
        records := [{ level := .warning, logger := .lookup
                      message := "Loki readiness check failed: " ++ message }] })
  | .answered status _ => (status = 200, { requests := [asked] })

end Lookup

end LogQuery

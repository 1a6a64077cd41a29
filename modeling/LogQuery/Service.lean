import LogQuery.Schema.Request
import LogQuery.Expression
import LogQuery.Join
import LogQuery.Suggestion
import LogQuery.Favorites
import LogQuery.Lookup
import LogQuery.Settings
/-!
# The service

A request of a client is routed, its body checked, and answered. The favorites are the only state;
`step` takes them along. What a request leaves behind is in its `Trail`.
-/

namespace LogQuery.Service

open Schema Lookup

/-! ## Requests and responses -/

/-- A JSON value in which every string is a text, as all strings of the models are: none has a
surrogate outside of a pair. -/
structure Document where
  value : Json
  unicode : value.isUnicode = true

/-- A request of a client. Its body, if there is one and it is not empty, is what reading it comes
to; the strings of a client are texts. -/
structure Request where
  method : String
  /-- The path as sent, with its escapes. -/
  path : String
  body : Option (Except Json.ReadError Document)

/-- The request with a text as its body, unless a string in it is no text. -/
def Request.ofText? (stack : Nat) (method path : String) (text : Option String) :
    Option Request :=
  match text.getD "" with
  | "" => some ⟨method, path, none⟩
  | text => match readText stack text with
    | .error e => some ⟨method, path, some (.error e)⟩
    | .ok v => if h : v.isUnicode = true then some ⟨method, path, some (.ok ⟨v, h⟩)⟩ else none

inductive Response
  | answer (status : Nat) (body : Json)
  /-- The body is no valid order; the paths of the issues start at the body. -/
  | rejected (issues : List Issue)
  /-- The body is no JSON. -/
  | notJson
  /-- An order could not be carried out. -/
  | fault (fault : Fault)

structure Reaction where
  response : Response
  trail : Trail

/-! ## Routes -/

inductive Route
  | root
  | health
  | compile
  | labels
  | fields
  | favorites (datasource key : String)
  deriving DecidableEq, Repr

def Route.method : Route → String
  | root | health => "GET"
  | compile | labels | fields => "POST"
  | favorites _ _ => "PUT"

def fixedRoutes : List (String × Route) :=
  [("/", .root), ("/health", .health), ("/v1/query/compile", .compile),
    ("/v1/tag-values/labels", .labels), ("/v1/tag-values/detected-fields", .fields)]

/-- The route of a decoded path. The last of the fixed paths' characters may be followed by a line
feed; the parameters of a path are not empty. Two kinds of paths are left out: those of the
generated documentation, and those that a slash at the end more or less would make the path of a
route, to which the answer is a redirect. -/
def route? (path : String) : Option Route :=
  match fixedRoutes.find? fun r => path = r.1 || path = r.1 ++ "\n" with
  | some r => some r.2
  | none =>
    match (path.toList.splitOn '/').map String.ofList with
    | ["", "v1", "favorites", datasource, key] =>
      if datasource = "" ∨ key = "" then none else some (.favorites datasource key)
    | _ => none

def detail (text : String) : Json := .object [("detail", .string text)]

/-! ## Bodies -/

inductive Body (α : Type)
  | order (value : α)
  | refused (response : Response)

/-- The order in a body. Only for a text that is no JSON the answer says so; a number with too many
digits and a stack that is too small are errors of another kind. -/
def readBody {α : Type} (c : Codec α) : Option (Except Json.ReadError Document) → Body α
  | none => .refused (.rejected [⟨.missing, []⟩])
  | some (.error .malformed) => .refused .notJson
  | some (.error _) => .refused (.answer 400 (detail "There was an error parsing the body"))
  | some (.ok document) => match c.read document.value with
    | .ok a => .order a
    | .rejected issues => .refused (.rejected issues)

/-! ## Handlers -/

structure Config where
  settings : Settings

def Config.address (c : Config) : Address := .ofUrl c.settings.lokiUrl

def healthBody (c : Config) (isReady : Bool) : Json := .object [
  ("status", .string (if isReady then "healthy" else "degraded")),
  ("service", .string c.settings.serviceName),
  ("version", .string c.settings.serviceVersion),
  ("dependencies", .object [("loki", .string (if isReady then "ok" else "unreachable"))])]

def filterState (o : CompileOrder) : FilterState where
  labels := matchers o.labels
  metadata := matchers o.metadata
  fields := o.fields.map Envelope.matcher
  lineFilters := matchers o.lineFilters
  patterns := o.patterns
  levels := matchers o.levels

def fragmentsBody (f : Fragments) : Json := .object [
  ("labels", .string f.labels),
  ("metadata", .string f.metadata),
  ("levels", .string f.levels),
  ("fields", .string f.fields),
  ("line_filters", .string f.lineFilters),
  ("patterns", .string f.patterns)]

/-- The fields are decoded for the fragments and again for the expression, and noted each time. -/
def compile (o : CompileOrder) : Reaction :=
  let state := filterState o
  let expr := state.expression
  let warnings := o.fields.flatMap fun f => Envelope.warnings f.value
  let compiled : Log.Record :=
    { level := .info, logger := .service, message := "Compiled query"
      fields := some [("expr", .string expr)] }
  { response := .answer 200 (.object [
      ("expr", .string expr),
      ("fragments", fragmentsBody state.fragments),
      ("query", QuerySpec.codec.write {} (QuerySpec.changed expr o.changes))])
    trail :=
      { records := warnings ++ warnings ++ [compiled]
        spans := [⟨"compile_query", [("logql.query", .string expr)]⟩] } }

def suggestionsBody (suggestions : List Suggestion) : Json := .object [
  ("replace", .bool true),
  ("values", .array (suggestions.map (Suggestion.codec.write {})))]

/-- The reaction to a lookup whose values become suggestions. -/
def suggest (span : Span) (found : Outcome (List Json)) (warnings : List Json → List Log.Record)
    (suggestions : List Json → Except Fault (List Suggestion)) : Reaction :=
  let ended : Trail := { spans := [span] }
  match found.result with
  | .error fault => ⟨.fault fault, found.trail.append ended⟩
  | .ok values =>
    let response := match suggestions values with
      | .error fault => Response.fault fault
      | .ok ss => .answer 200 (suggestionsBody ss)
    ⟨response, (found.trail.append { records := warnings values }).append ended⟩

def labelSuggestions (favorites : Favorites) (r : LabelLookup) (values : List Json) :
    Except Fault (List Suggestion) := do
  let rest ← Suggestion.ofLabel values (matchers r.filters) r.filter.key
    (favorites.get (r.datasource, r.filter.key))
  Suggestion.plains rest

/-- The matchers that narrow a lookup: the joined filters without those on its own key. -/
def scope (r : LabelLookup) : List Matcher :=
  matchers (Join.scopeFilters (Join.joinFilters r.filters) r.filter)

def labels (c : Config) (favorites : Favorites) (store : Store) (r : LabelLookup) : Reaction :=
  suggest ⟨"label_values", [("loki.label", .string r.filter.key)]⟩
    (labelValues store c.address r.filter.key (scope r)
      (r.window.map TimeWindow.start) (r.window.map TimeWindow.stop))
    (fun _ => [])
    (labelSuggestions favorites r)

def fields (c : Config) (store : Store) (r : FieldLookup) : Reaction :=
  suggest ⟨"detected_field_values", [("loki.field", .string r.filter.key)]⟩
    (fieldValues store c.address r.filter.key r.expr r.limit
      (r.window.map TimeWindow.start) (r.window.map TimeWindow.stop))
    (fun values => Suggestion.fieldWarnings values r.filter r.variableType)
    (fun values => Suggestion.ofField values r.filters r.filter r.variableType)

def favoritesBody (datasource key : String) (values : List String) : Json := .object [
  ("datasource_uid", .string datasource),
  ("key", .string key),
  ("values", Json.strings values)]

/-! ## Steps -/

/-- What the service starts with, and what it leaves behind while starting. -/
def start (c : Config) (store : Store) : Trail :=
  let (isReady, trail) := ready store c.address
  if isReady then trail
  else trail.append
    { records := [{ level := .warning, logger := .service
                    message := "Loki not reachable at startup, value lookups will return no values"
                    fields := some [("loki_url", .string c.settings.lokiUrl)] }] }

def silent (response : Response) : Reaction := ⟨response, {}⟩

/-- Handles a body, or answers what is wrong with it. -/
def withBody {α : Type} (codec : Codec α) (r : Request) (favorites : Favorites)
    (handle : α → Favorites × Reaction) : Favorites × Reaction :=
  match readBody codec r.body with
  | .order a => handle a
  | .refused response => (favorites, silent response)

def dispatch (c : Config) (store : Store) (favorites : Favorites) (r : Request) :
    Route → Favorites × Reaction
  | .root => (favorites, silent (.answer 200 (.object
      [("status", .string "healthy"), ("service", .string c.settings.serviceName)])))
  | .health =>
    let (isReady, trail) := ready store c.address
    (favorites, ⟨.answer 200 (healthBody c isReady), trail⟩)
  | .compile => withBody CompileOrder.codec r favorites fun o => (favorites, compile o)
  | .labels => withBody LabelLookup.codec r favorites fun l =>
      (favorites, labels c favorites store l)
  | .fields => withBody FieldLookup.codec r favorites fun l => (favorites, fields c store l)
  | .favorites datasource key => withBody FavoriteOrder.codec r favorites fun o =>
      let favorites := favorites.add (datasource, key) o.values
      (favorites,
        silent (.answer 200 (favoritesBody datasource key (favorites.get (datasource, key)))))

/-- The reaction to one request, with the favorites after it. -/
def step (c : Config) (store : Store) (favorites : Favorites) (r : Request) :
    Favorites × Reaction :=
  match route? (Text.Percent.decode r.path) with
  | none => (favorites, silent (.answer 404 (detail "Not Found")))
  | some route =>
    if r.method = route.method then dispatch c store favorites r route
    else (favorites, silent (.answer 405 (detail "Method Not Allowed")))

end LogQuery.Service

import LogQuery.Log
/-!
# Setting up telemetry

The steps that connect the service to the exporter of traces. A step that fails ends the setup and
is noted; the service starts all the same.
-/

namespace LogQuery.Trace

structure Options where
  serviceName : String := "logql-compiler"
  serviceVersion : String := "0.1.0"
  endpoint : String := "http://localhost:4317"
  environment : String := "local"
  enabled : Bool := true

inductive Step
  | exporter (endpoint : String)
  | batch
  | provider (attributes : List (String × String))
  | instrumentService (excluded : String)
  | instrumentClient
  deriving DecidableEq, Repr

def steps (o : Options) : List Step :=
  [.exporter o.endpoint, .batch,
    .provider [("service.name", o.serviceName), ("service.version", o.serviceVersion),
      ("deployment.environment", o.environment), ("service.namespace", "logql-compiler")],
    .instrumentService "/health", .instrumentClient]

/-- The steps taken until one fails, and what that one says. -/
def run (failure? : Step → Option String) : List Step → List Step × Option String
  | [] => ([], none)
  | s :: rest => match failure? s with
    | some message => ([], some message)
    | none => let (taken, failed) := run failure? rest; (s :: taken, failed)

def note (level : Log.Level) (message : String) : Log.Record :=
  { level, logger := .telemetry, message }

/-- The steps taken, and the record left behind. -/
def setup (o : Options) (failure? : Step → Option String) : List Step × Log.Record :=
  if !o.enabled then ([], note .info "OpenTelemetry disabled")
  else match run failure? (steps o) with
    | (taken, some message) =>
      (taken, note .error ("✗ OpenTelemetry initialization failed: " ++ message))
    | (taken, none) =>
      (taken, note .info ("✓ OpenTelemetry initialized: " ++ o.serviceName ++ " → " ++ o.endpoint))

end LogQuery.Trace

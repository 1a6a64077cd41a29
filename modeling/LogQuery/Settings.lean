import LogQuery.Settings.EnvFile
import LogQuery.Schema.Integer
import LogQuery.Text.Letter
/-!
# Settings

The settings of the service. Each is taken from the environment, or else from the environment file,
or else is as given here.
-/

namespace LogQuery

open Schema

structure Settings where
  serviceName : String := "logql-compiler"
  serviceVersion : String := "0.1.0"
  logLevel : String := "INFO"
  lokiUrl : String := "http://loki.logging.svc.cluster.local:3100"
  lokiTimeout : Int := 10
  tagValuesLimit : Int := 1000
  lineLimit : Int := 1000
  otelEnabled : Bool := false
  otelEndpoint : String := "http://localhost:4317"
  deploymentEnvironment : String := "local"
  deriving DecidableEq, Repr

namespace Settings

/-- What every name in the environment begins with, in lower case. -/
def namespacePart : String := "logql_compiler_"

abbrev Environment := List (String × String)

/-- A name set twice has its last value, in the place of the first. -/
def settle (env : Environment) : Environment :=
  (env.map Prod.fst).eraseDups.filterMap fun name =>
    (env.reverse.lookup name).map fun v => (name, v)

/-- The value for a setting; names are compared in lower case, and of several the last counts. -/
def valueOf? (env : Environment) (name : String) : Option String :=
  (env.map fun e => (Text.lower e.1, e.2)).reverse.lookup (namespacePart ++ name)

def readBool (s : String) : Checked Bool :=
  let t := String.ofList (s.toList.map Char.toLower)
  if t ∈ ["true", "t", "yes", "y", "on", "1"] then .ok true
  else if t ∈ ["false", "f", "no", "n", "off", "0"] then .ok false
  else .reject .unreadableBool

/-- A setting from the environment, the file, or its default. -/
def setting {α : Type} (env file : Environment) (name : String) (read : String → Checked α)
    (default : α) : Checked α :=
  match (valueOf? env name).or (valueOf? file name) with
  | some text => (read text).within name
  | none => .ok default

def text (s : String) : Checked String := .ok s

def load (env : Environment) (fileText : Option String) : Checked Settings :=
  let file := settle ((fileText.map (readEnvFile env)).getD [])
  let d : Settings := {}
  ((setting env file "service_name" text d.serviceName).both <|
    (setting env file "service_version" text d.serviceVersion).both <|
    (setting env file "log_level" text d.logLevel).both <|
    (setting env file "loki_url" text d.lokiUrl).both <|
    (setting env file "loki_timeout" readIntegerText d.lokiTimeout).both <|
    (setting env file "tag_values_limit" readIntegerText d.tagValuesLimit).both <|
    (setting env file "line_limit" readIntegerText d.lineLimit).both <|
    (setting env file "otel_enabled" readBool d.otelEnabled).both <|
    (setting env file "otel_endpoint" text d.otelEndpoint).both <|
    setting env file "deployment_environment" text d.deploymentEnvironment).map
    fun (serviceName, serviceVersion, logLevel, lokiUrl, lokiTimeout, tagValuesLimit, lineLimit,
        otelEnabled, otelEndpoint, deploymentEnvironment) =>
      ⟨serviceName, serviceVersion, logLevel, lokiUrl, lokiTimeout, tagValuesLimit, lineLimit,
        otelEnabled, otelEndpoint, deploymentEnvironment⟩

def toJson (s : Settings) : Json := .object [
  ("service_name", .string s.serviceName),
  ("service_version", .string s.serviceVersion),
  ("log_level", .string s.logLevel),
  ("loki_url", .string s.lokiUrl),
  ("loki_timeout", .int s.lokiTimeout),
  ("tag_values_limit", .int s.tagValuesLimit),
  ("line_limit", .int s.lineLimit),
  ("otel_enabled", .bool s.otelEnabled),
  ("otel_endpoint", .string s.otelEndpoint),
  ("deployment_environment", .string s.deploymentEnvironment)]

end Settings

end LogQuery

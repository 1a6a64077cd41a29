import LogQuery.Json.Basic
/-!
# Log records

A record is a message with named fields, left by the part of the service that is its logger.
-/

namespace LogQuery.Log

inductive Level
  | info
  | warning
  | error
  deriving DecidableEq, Repr

def Level.name : Level → String
  | info => "INFO"
  | warning => "WARNING"
  | error => "ERROR"

inductive Logger
  | filters
  | lookup
  | service
  | telemetry
  deriving DecidableEq, Repr

def Logger.name : Logger → String
  | filters => "logql_compiler.models.filters"
  | lookup => "logql_compiler.loki"
  | service => "logql_compiler.main"
  | telemetry => "logql_compiler.observability"

structure Record where
  level : Level
  logger : Logger
  message : String
  fields : Option Json.Members := none

end LogQuery.Log

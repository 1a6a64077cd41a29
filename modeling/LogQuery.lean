import LogQuery.Service
import LogQuery.Wildcard
import LogQuery.Log.Line
import LogQuery.Log.Setup
import LogQuery.Trace.Processor
import LogQuery.Trace.Telemetry
import LogQuery.Proofs.Alternation
import LogQuery.Proofs.Grouping
import LogQuery.Proofs.Partition
import LogQuery.Proofs.Literal
import LogQuery.Proofs.Syntax.Token
import LogQuery.Proofs.Syntax.Quoting
import LogQuery.Proofs.Syntax.Clause
import LogQuery.Proofs.Selector
import LogQuery.Proofs.Join
import LogQuery.Proofs.Clauses
import LogQuery.Proofs.Expression
import LogQuery.Proofs.Variables
import LogQuery.Proofs.Json.Spelling
import LogQuery.Proofs.Json.Rendering
import LogQuery.Proofs.Envelope
import LogQuery.Proofs.Meaning
import LogQuery.Proofs.Scope
import LogQuery.Proofs.Suggestion
import LogQuery.Proofs.Suggestion.Field
import LogQuery.Proofs.Favorites
import LogQuery.Proofs.Lookup
import LogQuery.Proofs.Service
import LogQuery.Proofs.Answers
import LogQuery.Proofs.Stage
import LogQuery.Proofs.Json.Grammar
import LogQuery.Proofs.Json.Number
import LogQuery.Proofs.Json.Completeness
import LogQuery.Proofs.Json.Members
import LogQuery.Proofs.Models
import LogQuery.Proofs.Absorption
import LogQuery.Proofs.Suggestion.Label
import LogQuery.Proofs.EmptyMarker
import LogQuery.Proofs.Interleaving
import LogQuery.Proofs.LineFilter
import LogQuery.Proofs.Degradation
import LogQuery.Proofs.Precedence
import LogQuery.Proofs.Trimming
import LogQuery.Proofs.Syntax.RawLiteral
import LogQuery.Proofs.Levels
import LogQuery.Proofs.Dangling
import LogQuery.Proofs.Wildcard
import LogQuery.Proofs.QuerySpec
import LogQuery.Proofs.Binary64
import LogQuery.Proofs.Nanoseconds

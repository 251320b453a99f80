import Cypher.CommandLine
import Cypher.Connection.Basic
import Cypher.Data.Ordered
import Cypher.Decimal.Numeral
import Cypher.Decimal.Shortest
import Cypher.Json.Basic
import Cypher.Json.Reader
import Cypher.Logging.Setup
import Cypher.Main
import Cypher.Proofs.CommandLine
import Cypher.Proofs.Connection.Script
import Cypher.Proofs.Data.Ordered
import Cypher.Proofs.Decimal.Digits
import Cypher.Proofs.Decimal.Nearest
import Cypher.Proofs.Decimal.Rounding
import Cypher.Proofs.Decimal.Shortest
import Cypher.Proofs.Json.Document
import Cypher.Proofs.Json.Structure
import Cypher.Proofs.Json.Tokens
import Cypher.Proofs.Logging.History
import Cypher.Proofs.Logging.Requests
import Cypher.Proofs.Query.Assignments
import Cypher.Proofs.Query.Chaining
import Cypher.Proofs.Query.Naming
import Cypher.Proofs.Query.Operators
import Cypher.Proofs.Query.QuotedTexts
import Cypher.Proofs.Query.Rows
import Cypher.Proofs.Query.Running
import Cypher.Proofs.Query.Runs
import Cypher.Proofs.Query.Spacing
import Cypher.Proofs.RoundTrip
import Cypher.Proofs.Settings.Ports
import Cypher.Proofs.Settings.Resolution
import Cypher.Proofs.Settings.Variables
import Cypher.Proofs.Temporal.Duration
import Cypher.Proofs.Temporal.Reader
import Cypher.Proofs.Temporal.WrittenForms
import Cypher.Proofs.Text.Quoted
import Cypher.Proofs.Text.Seams
import Cypher.Proofs.Text.Spacing
import Cypher.Proofs.Text.Trim
import Cypher.Proofs.Value.Brackets
import Cypher.Proofs.Value.Codec
import Cypher.Proofs.Value.Equality
import Cypher.Proofs.Value.FloatForms
import Cypher.Proofs.Value.HeldReading
import Cypher.Proofs.Value.Leaves
import Cypher.Proofs.Value.MemberOrder
import Cypher.Proofs.Value.Parts
import Cypher.Proofs.Value.Readability
import Cypher.Proofs.Value.Refusals
import Cypher.Proofs.Value.Roles
import Cypher.Proofs.Value.Scalars
import Cypher.Proofs.Value.Stability
import Cypher.Query.Basic
import Cypher.Query.Clause
import Cypher.Settings.Basic
import Cypher.Settings.Document
import Cypher.Temporal.Basic
import Cypher.Temporal.Reader
import Cypher.Text.Basic
import Cypher.Text.Shown
import Cypher.Value.Basic
import Cypher.Value.Decode
import Cypher.Value.Encode
import Cypher.Value.Equality

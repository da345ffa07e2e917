import QueryLoom.Calendar.Date
import QueryLoom.Calendar.Time
import QueryLoom.Command.Arguments
import QueryLoom.Command.Run
import QueryLoom.CompileError
import QueryLoom.Config.Basic
import QueryLoom.Config.Reference
import QueryLoom.Data.DataType
import QueryLoom.Data.Value
import QueryLoom.Failure
import QueryLoom.Json.Basic
import QueryLoom.Json.Printer
import QueryLoom.Json.Reader
import QueryLoom.Json.Record
import QueryLoom.Log
import QueryLoom.Number.Binary
import QueryLoom.Number.Decimal
import QueryLoom.Number.Power
import QueryLoom.Number.Shortest
import QueryLoom.Proofs.Answer.Draft
import QueryLoom.Proofs.Answer.Possible
import QueryLoom.Proofs.Answer.Statement
import QueryLoom.Proofs.Answer.Test
import QueryLoom.Proofs.Config.Expansion
import QueryLoom.Proofs.Config.Interpolation
import QueryLoom.Proofs.Drafting.Acceptance
import QueryLoom.Proofs.Drafting.Condition
import QueryLoom.Proofs.Drafting.Counter
import QueryLoom.Proofs.Drafting.Filtering
import QueryLoom.Proofs.Drafting.Invariant
import QueryLoom.Proofs.Drafting.Naming
import QueryLoom.Proofs.Drafting.Outcome
import QueryLoom.Proofs.Drafting.Readiness
import QueryLoom.Proofs.Drafting.Sorts
import QueryLoom.Proofs.Drafting.Visit
import QueryLoom.Proofs.Drafting.Vocabulary
import QueryLoom.Proofs.Lists.Pairing
import QueryLoom.Proofs.Meaning.Accepted
import QueryLoom.Proofs.Meaning.Carried
import QueryLoom.Proofs.Meaning.Engine
import QueryLoom.Proofs.Meaning.Interpretation
import QueryLoom.Proofs.Meaning.Operands
import QueryLoom.Proofs.Meaning.Rows
import QueryLoom.Proofs.Meaning.Scalar
import QueryLoom.Proofs.Meaning.Sequence
import QueryLoom.Proofs.Meaning.Server
import QueryLoom.Proofs.Meaning.Substitution
import QueryLoom.Proofs.Operation.Search
import QueryLoom.Proofs.Operation.Substring
import QueryLoom.Proofs.Operation.Text
import QueryLoom.Proofs.Ordering.ColumnNumber
import QueryLoom.Proofs.Ordering.Drafted
import QueryLoom.Proofs.Ordering.Statement
import QueryLoom.Proofs.Paging.Statement
import QueryLoom.Proofs.Paging.Window
import QueryLoom.Proofs.Parameters.Drafting
import QueryLoom.Proofs.Parameters.Pieces
import QueryLoom.Proofs.Parameters.Statement
import QueryLoom.Proofs.Parameters.Tree
import QueryLoom.Proofs.Query.Site
import QueryLoom.Proofs.Query.Spine
import QueryLoom.Proofs.Reading.Grouping
import QueryLoom.Proofs.Reading.Layout
import QueryLoom.Proofs.Reading.RoundTrip
import QueryLoom.Proofs.Reading.Term
import QueryLoom.Proofs.Reading.Token
import QueryLoom.Proofs.Reading.Value
import QueryLoom.Proofs.Rendering.Labels
import QueryLoom.Proofs.Rendering.Lexemes
import QueryLoom.Proofs.Rendering.Lexing
import QueryLoom.Proofs.Rendering.Marks
import QueryLoom.Proofs.Rendering.Numeral
import QueryLoom.Proofs.Rendering.Placement
import QueryLoom.Proofs.Rendering.Quoted
import QueryLoom.Proofs.Rendering.Refusal
import QueryLoom.Proofs.Rendering.Representable
import QueryLoom.Proofs.Rendering.Requirements
import QueryLoom.Proofs.Rendering.Separation
import QueryLoom.Proofs.Rendering.Shape
import QueryLoom.Proofs.Rendering.Stamp
import QueryLoom.Proofs.Rendering.Styles
import QueryLoom.Proofs.Rendering.Walk
import QueryLoom.Proofs.Rendering.Writing
import QueryLoom.Proofs.Scoping.Around
import QueryLoom.Proofs.Scoping.Capture
import QueryLoom.Proofs.Scoping.Copies
import QueryLoom.Proofs.Scoping.Derived
import QueryLoom.Proofs.Scoping.Fresh
import QueryLoom.Proofs.Scoping.Levels
import QueryLoom.Proofs.Scoping.Parts
import QueryLoom.Proofs.Scoping.Stack
import QueryLoom.Proofs.Scoping.Statement
import QueryLoom.Proofs.Scoping.Walked
import QueryLoom.Proofs.Server.Spelling
import QueryLoom.Proofs.Session.Notification
import QueryLoom.Proofs.Session.Recording
import QueryLoom.Proofs.Text.Blank
import QueryLoom.Proofs.Text.Digits
import QueryLoom.Proofs.Text.FreeName
import QueryLoom.Proofs.Text.Splitting
import QueryLoom.Proofs.Truth.Carrying
import QueryLoom.Proofs.Truth.Coercion
import QueryLoom.Proofs.Truth.Datum
import QueryLoom.Proofs.Truth.Lowering
import QueryLoom.Proofs.Truth.Storage
import QueryLoom.Proofs.Truth.Tree
import QueryLoom.Proofs.Truth.Typing
import QueryLoom.Proofs.Upgrade.Features
import QueryLoom.Proofs.Upgrade.Loss
import QueryLoom.Proofs.Upgrade.Statement
import QueryLoom.Proofs.Upgrade.Truth
import QueryLoom.Proofs.Upgrade.Writing
import QueryLoom.Query.Basic
import QueryLoom.Query.Json
import QueryLoom.Query.Operation
import QueryLoom.Query.Yaml
import QueryLoom.Server.Capabilities
import QueryLoom.Server.Version
import QueryLoom.Session
import QueryLoom.Sql.Agreement
import QueryLoom.Sql.Basic
import QueryLoom.Sql.Drafting
import QueryLoom.Sql.Mapping
import QueryLoom.Sql.Paging
import QueryLoom.Sql.Piece
import QueryLoom.Sql.Statement
import QueryLoom.Text.Blank
import QueryLoom.Text.Escaped
import QueryLoom.Text.FreeName
import QueryLoom.Text.Letter
import QueryLoom.Text.Printable
import QueryLoom.Text.Scan
import QueryLoom.Uuid
import QueryLoom.Yaml.Basic
import QueryLoom.Yaml.Document
import QueryLoom.Yaml.Lexer
import QueryLoom.Yaml.Name
import QueryLoom.Yaml.Node
import QueryLoom.Yaml.Plain
import QueryLoom.Yaml.Scalar
import QueryLoom.Yaml.Tag
import QueryLoom.Yaml.Token
import QueryLoom.Main

import TypedQuery.Aliases
import TypedQuery.Clause
import TypedQuery.Config.Basic
import TypedQuery.Config.Environment
import TypedQuery.Config.Load
import TypedQuery.Config.Reader
import TypedQuery.Declaration.Basic
import TypedQuery.Declaration.Code
import TypedQuery.Declaration.Plural
import TypedQuery.Declaration.TableName
import TypedQuery.Declaration.Token
import TypedQuery.Declaration.TypeText
import TypedQuery.Demo
import TypedQuery.Entity
import TypedQuery.Error
import TypedQuery.Expr.Arithmetic
import TypedQuery.Expr.Basic
import TypedQuery.Expr.Eval
import TypedQuery.Expr.Fold
import TypedQuery.Expr.Like
import TypedQuery.Expr.Operator
import TypedQuery.Expr.OutputKind
import TypedQuery.Field.Constant
import TypedQuery.Field.Convert
import TypedQuery.Field.Type
import TypedQuery.Field.TypeName
import TypedQuery.Graph
import TypedQuery.Identifier
import TypedQuery.Instance
import TypedQuery.Json.Basic
import TypedQuery.Json.Printer
import TypedQuery.Json.Reader
import TypedQuery.Main
import TypedQuery.Materialize
import TypedQuery.Naming
import TypedQuery.Node
import TypedQuery.Number.Digits
import TypedQuery.Number.Double
import TypedQuery.Number.Hex
import TypedQuery.Number.Reading
import TypedQuery.Number.Scaled
import TypedQuery.Number.Shortest
import TypedQuery.Params
import TypedQuery.Plan
import TypedQuery.Query
import TypedQuery.Row
import TypedQuery.Run
import TypedQuery.Shape
import TypedQuery.Sql.Fragment
import TypedQuery.Sql.Positional
import TypedQuery.Sql.Translate
import TypedQuery.Statement
import TypedQuery.Text.Alphanumeric
import TypedQuery.Text.Blank
import TypedQuery.Text.CaseFold
import TypedQuery.Text.Combining
import TypedQuery.Text.Invisible
import TypedQuery.Text.Loose
import TypedQuery.Text.Lowercase
import TypedQuery.Text.Runs
import TypedQuery.Time.Date
import TypedQuery.Time.Instant
import TypedQuery.Toml.Basic
import TypedQuery.Toml.Reader
import TypedQuery.Toml.Scalar
import TypedQuery.Toml.Table
import TypedQuery.Toml.Text
import TypedQuery.Uuid
import TypedQuery.Value.Basic
import TypedQuery.Value.Coerce
import TypedQuery.Value.Compare
import TypedQuery.Value.Key
import TypedQuery.Value.Kind
import TypedQuery.Value.Text
import TypedQuery.Wire.Expr
import TypedQuery.Wire.Result
import TypedQuery.Wire.Schema
import TypedQuery.Wire.Value
import TypedQuery.Proofs.Sql.Rules
import TypedQuery.Proofs.Sql.Vocabulary
import TypedQuery.Proofs.Sql.Placeholders
import TypedQuery.Proofs.Sql.Columns
import TypedQuery.Proofs.Materialize.Classes
import TypedQuery.Proofs.Materialize.Grouping
import TypedQuery.Proofs.Materialize.Trace
import TypedQuery.Proofs.Materialize.Absorb
import TypedQuery.Proofs.Materialize.Result
import TypedQuery.Proofs.Plan.Assembly
import TypedQuery.Proofs.Plan.Building
import TypedQuery.Proofs.Text.Alike
import TypedQuery.Proofs.Plan.Calls
import TypedQuery.Proofs.Plan.Scope
import TypedQuery.Proofs.Plan.Rewriting
import TypedQuery.Proofs.Sql.Condition
import TypedQuery.Proofs.Sql.Grouping
import TypedQuery.Proofs.Materialize.Groups
import TypedQuery.Proofs.Materialize.Origins
import TypedQuery.Proofs.Materialize.Edges
import TypedQuery.Proofs.Expr.Evaluation
import TypedQuery.Proofs.Sql.Noninterference
import TypedQuery.Proofs.Sql.Formula
import TypedQuery.Proofs.Sql.Matching
import TypedQuery.Proofs.Expr.Folding
import TypedQuery.Proofs.Plan.Binding
import TypedQuery.Proofs.Sql.Conjunction
import TypedQuery.Proofs.Plan.GroupCondition
import TypedQuery.Proofs.Plan.Outputs
import TypedQuery.Proofs.Materialize.Columns
import TypedQuery.Proofs.Plan.ReadBack
import TypedQuery.Proofs.Sql.Grammar
import TypedQuery.Proofs.Plan.Window
import TypedQuery.Proofs.Plan.FirstResult
import TypedQuery.Proofs.Plan.Registration
import TypedQuery.Proofs.Declaration.Accepted
import TypedQuery.Proofs.Plan.NameLength
import TypedQuery.Proofs.Number.Rounding
import TypedQuery.Proofs.Number.Digits
import TypedQuery.Proofs.Field.Names
import TypedQuery.Proofs.Field.RoundTrip
import TypedQuery.Proofs.Plan.InstanceRows
import TypedQuery.Proofs.Expr.Like
import TypedQuery.Proofs.Sql.Membership
import TypedQuery.Proofs.Plan.Requests
import TypedQuery.Proofs.Sql.Replacement
import TypedQuery.Proofs.Expr.Kinds
import TypedQuery.Proofs.Value.Digest
import TypedQuery.Proofs.Expr.Memory
import TypedQuery.Proofs.Sql.TwoRuns
import TypedQuery.Proofs.Sql.Interchange
import TypedQuery.Proofs.Number.Words
import TypedQuery.Proofs.Expr.Integers
import TypedQuery.Proofs.Number.Numeral
import TypedQuery.Proofs.Number.Representable
import TypedQuery.Proofs.Value.WholeDecimals
import TypedQuery.Proofs.Number.Order
import TypedQuery.Proofs.Value.IntegerOrder
import TypedQuery.Proofs.Json.Lengths
import TypedQuery.Proofs.Field.Coerced
import TypedQuery.Proofs.Materialize.Forest
import TypedQuery.Proofs.Config.ConnectionString
import TypedQuery.Proofs.Plan.Spelling

import StepQuery.Calendar
import StepQuery.Casting
import StepQuery.Command.Arguments
import StepQuery.Command.Run
import StepQuery.Compilation
import StepQuery.Compilation.Crew
import StepQuery.Condition.Tree
import StepQuery.Condition.TreeDocument
import StepQuery.Document
import StepQuery.Expression.Basic
import StepQuery.Expression.Datum
import StepQuery.Expression.Evaluation
import StepQuery.Expression.Reader
import StepQuery.Expression.Token
import StepQuery.Expression.Typing
import StepQuery.Failure
import StepQuery.Formula.Basic
import StepQuery.Formula.Reader
import StepQuery.Formula.Token
import StepQuery.Json.Basic
import StepQuery.Json.Printer
import StepQuery.Json.Reader
import StepQuery.Main
import StepQuery.Number.Decimal
import StepQuery.Number.Power
import StepQuery.Number.Shortest
import StepQuery.Pattern.Basic
import StepQuery.Pattern.Reader
import StepQuery.Pipeline.Basic
import StepQuery.Pipeline.Copy
import StepQuery.Pipeline.Read
import StepQuery.Pipeline.ReadCondition
import StepQuery.Pipeline.Record
import StepQuery.Pipeline.Write
import StepQuery.Proofs.Acceptance.Condition
import StepQuery.Proofs.Acceptance.Grammar
import StepQuery.Proofs.Acceptance.Operation
import StepQuery.Proofs.Acceptance.Query
import StepQuery.Proofs.Attempt
import StepQuery.Proofs.Casting.Exactness
import StepQuery.Proofs.Casting.Routes
import StepQuery.Proofs.Codec.Condition
import StepQuery.Proofs.Codec.Conditional
import StepQuery.Proofs.Codec.Fidelity
import StepQuery.Proofs.Codec.Grammar
import StepQuery.Proofs.Codec.Kinds
import StepQuery.Proofs.Codec.Operation
import StepQuery.Proofs.Codec.Parameters
import StepQuery.Proofs.Codec.Pipeline
import StepQuery.Proofs.Codec.Preservation
import StepQuery.Proofs.Codec.Record
import StepQuery.Proofs.Codec.Retention
import StepQuery.Proofs.Codec.Strictness
import StepQuery.Proofs.Codec.Surplus
import StepQuery.Proofs.Codec.Value
import StepQuery.Proofs.Compilation.Schedule
import StepQuery.Proofs.Condition.Absence
import StepQuery.Proofs.Condition.Agreement
import StepQuery.Proofs.Condition.Casting
import StepQuery.Proofs.Condition.Dissolving
import StepQuery.Proofs.Condition.Editing
import StepQuery.Proofs.Condition.Evaluation
import StepQuery.Proofs.Condition.Nesting
import StepQuery.Proofs.Condition.Refusing
import StepQuery.Proofs.Constant.Barren
import StepQuery.Proofs.Constant.Places
import StepQuery.Proofs.Constant.Reading
import StepQuery.Proofs.Date.Calendar
import StepQuery.Proofs.Date.Evaluation
import StepQuery.Proofs.Date.Parts
import StepQuery.Proofs.Date.Period
import StepQuery.Proofs.Date.Previous
import StepQuery.Proofs.Execution.Aggregating
import StepQuery.Proofs.Execution.Appending
import StepQuery.Proofs.Execution.Cumulating
import StepQuery.Proofs.Execution.Engine
import StepQuery.Proofs.Execution.Grouping
import StepQuery.Proofs.Execution.Joining
import StepQuery.Proofs.Execution.Names
import StepQuery.Proofs.Execution.Renaming
import StepQuery.Proofs.Execution.Restoring
import StepQuery.Proofs.Execution.Rows
import StepQuery.Proofs.Execution.Selecting
import StepQuery.Proofs.Execution.Substring
import StepQuery.Proofs.Execution.Temporary
import StepQuery.Proofs.Execution.Tidiness
import StepQuery.Proofs.Execution.Variables
import StepQuery.Proofs.Fields
import StepQuery.Proofs.Formula.Calculation
import StepQuery.Proofs.Formula.Grammar
import StepQuery.Proofs.Formula.Literals
import StepQuery.Proofs.Formula.Positions
import StepQuery.Proofs.Formula.Printing
import StepQuery.Proofs.Formula.Reading
import StepQuery.Proofs.Formula.Spelling
import StepQuery.Proofs.Json.Quoting
import StepQuery.Proofs.Json.RoundTrip
import StepQuery.Proofs.Number.Conversion
import StepQuery.Proofs.Number.Double
import StepQuery.Proofs.Number.Nearness
import StepQuery.Proofs.Number.Numeral
import StepQuery.Proofs.Number.Shortest
import StepQuery.Proofs.Number.Whole
import StepQuery.Proofs.Query.Composition
import StepQuery.Proofs.Query.Gating
import StepQuery.Proofs.Query.Merging
import StepQuery.Proofs.Query.Requests
import StepQuery.Proofs.Query.Runs
import StepQuery.Proofs.Query.Sources
import StepQuery.Proofs.Query.Stages
import StepQuery.Proofs.Query.Stopping
import StepQuery.Proofs.Reference.Commutation
import StepQuery.Proofs.Reference.Cycle
import StepQuery.Proofs.Reference.Order
import StepQuery.Proofs.Reference.Path
import StepQuery.Proofs.Reference.Recording
import StepQuery.Proofs.Reference.Traversal
import StepQuery.Proofs.Reference.Unfolding
import StepQuery.Proofs.Settings.Expansion
import StepQuery.Proofs.Summary.Unambiguity
import StepQuery.Proofs.Template.Cutting
import StepQuery.Proofs.Template.Effect
import StepQuery.Proofs.Template.Filling
import StepQuery.Proofs.Template.Positions
import StepQuery.Proofs.Template.Rendering
import StepQuery.Proofs.Template.Repetition
import StepQuery.Proofs.Template.Wholeness
import StepQuery.Proofs.Text.Class
import StepQuery.Proofs.Text.Indentation
import StepQuery.Proofs.Text.Trimming
import StepQuery.Query.Arithmetic
import StepQuery.Query.Backend
import StepQuery.Query.Condition
import StepQuery.Query.DatePart
import StepQuery.Query.ExtendedJson
import StepQuery.Query.OfPipeline
import StepQuery.Query.Operation
import StepQuery.Query.Simplify
import StepQuery.Query.Stage
import StepQuery.Query.Term
import StepQuery.Reference.Dependencies
import StepQuery.Reference.Path
import StepQuery.Reference.Resolve
import StepQuery.Settings.Basic
import StepQuery.Settings.Environment
import StepQuery.Settings.Load
import StepQuery.Summary
import StepQuery.Surroundings
import StepQuery.Template.Basic
import StepQuery.Template.Interpolation
import StepQuery.Text.Class
import StepQuery.Text.Digits
import StepQuery.Text.Graphic
import StepQuery.Text.Indent
import StepQuery.Text.Letters
import StepQuery.Value
import StepQuery.Variables
import StepQuery.Yaml.Basic
import StepQuery.Yaml.Block
import StepQuery.Yaml.Flow

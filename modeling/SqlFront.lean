import SqlFront.Cache
import SqlFront.Clause.Expression
import SqlFront.Clause.InsertRows
import SqlFront.Clause.InsertTarget
import SqlFront.Clause.Ordering
import SqlFront.Clause.RowLimit
import SqlFront.Clause.SelectList
import SqlFront.Clause.TableReference
import SqlFront.Clause.Where
import SqlFront.CommandLine.Invocation
import SqlFront.Cursor
import SqlFront.Dialect.Basic
import SqlFront.Fault
import SqlFront.Json.Basic
import SqlFront.Json.Decode
import SqlFront.Json.Encode
import SqlFront.Json.Read
import SqlFront.KeyedList
import SqlFront.Lexeme.Basic
import SqlFront.Lexeme.Ignored
import SqlFront.Lexeme.Piece
import SqlFront.Main
import SqlFront.Number.Basic
import SqlFront.Number.Binary64
import SqlFront.Number.Layout
import SqlFront.Parser
import SqlFront.Proofs.Cache
import SqlFront.Proofs.Cache.Accounts
import SqlFront.Proofs.Change.SetList
import SqlFront.Proofs.Change.Text
import SqlFront.Proofs.Collecting
import SqlFront.Proofs.Composite
import SqlFront.Proofs.Condition.Comparison
import SqlFront.Proofs.Condition.Compound
import SqlFront.Proofs.Condition.Conjunction
import SqlFront.Proofs.Condition.Entailment
import SqlFront.Proofs.Condition.Exactness
import SqlFront.Proofs.Condition.Formula
import SqlFront.Proofs.Condition.Origin
import SqlFront.Proofs.Condition.Reading
import SqlFront.Proofs.Condition.WellFormed
import SqlFront.Proofs.Cursor.Calls
import SqlFront.Proofs.Cursor.Facing
import SqlFront.Proofs.Cursor.Index
import SqlFront.Proofs.Cursor.OnDemand
import SqlFront.Proofs.Cursor.Order
import SqlFront.Proofs.Cursor.Path
import SqlFront.Proofs.Derived.Adding
import SqlFront.Proofs.Derived.Average
import SqlFront.Proofs.Derived.Call
import SqlFront.Proofs.Derived.Level
import SqlFront.Proofs.Derived.Staging
import SqlFront.Proofs.Edit.Distinct
import SqlFront.Proofs.Edit.Reader
import SqlFront.Proofs.Edit.Sorting
import SqlFront.Proofs.Edit.Source
import SqlFront.Proofs.Fault.Clause
import SqlFront.Proofs.Fault.Sited
import SqlFront.Proofs.Fault.Statement
import SqlFront.Proofs.Insertion.Agreement
import SqlFront.Proofs.Insertion.Aligned
import SqlFront.Proofs.Insertion.Anchor
import SqlFront.Proofs.Insertion.Attribution
import SqlFront.Proofs.Insertion.Beside
import SqlFront.Proofs.Insertion.CatalogList
import SqlFront.Proofs.Insertion.DuplicateKey
import SqlFront.Proofs.Insertion.Enclosed
import SqlFront.Proofs.Insertion.Heading
import SqlFront.Proofs.Insertion.ListEnd
import SqlFront.Proofs.Insertion.Listing
import SqlFront.Proofs.Insertion.Row
import SqlFront.Proofs.Insertion.RowList
import SqlFront.Proofs.Insertion.Statement
import SqlFront.Proofs.Insertion.Synthesis
import SqlFront.Proofs.Insertion.Target
import SqlFront.Proofs.Insertion.TwoTexts
import SqlFront.Proofs.Insertion.Value
import SqlFront.Proofs.Insertion.WellFormed
import SqlFront.Proofs.Insertion.WholeRow
import SqlFront.Proofs.IntegerLiteral
import SqlFront.Proofs.Json.Statement
import SqlFront.Proofs.Lexeme.BareWord
import SqlFront.Proofs.Lexeme.Behind
import SqlFront.Proofs.Lexeme.Case
import SqlFront.Proofs.Lexeme.Closing
import SqlFront.Proofs.Lexeme.Edge
import SqlFront.Proofs.Lexeme.Extent
import SqlFront.Proofs.Lexeme.Front
import SqlFront.Proofs.Lexeme.Gap
import SqlFront.Proofs.Lexeme.Last
import SqlFront.Proofs.Lexeme.LongestSymbol
import SqlFront.Proofs.Lexeme.Lookahead
import SqlFront.Proofs.Lexeme.Placed
import SqlFront.Proofs.Lexeme.PropertyDot
import SqlFront.Proofs.Lexeme.Quotation
import SqlFront.Proofs.Lexeme.Spaced
import SqlFront.Proofs.Lexeme.Tiling
import SqlFront.Proofs.Lexeme.Transparent
import SqlFront.Proofs.Lexeme.Words
import SqlFront.Proofs.Lexeme.Written
import SqlFront.Proofs.Merge
import SqlFront.Proofs.Merge.Chain
import SqlFront.Proofs.Number.Numeral
import SqlFront.Proofs.Operand
import SqlFront.Proofs.OperandChain
import SqlFront.Proofs.Parenthesis
import SqlFront.Proofs.Parser.Carrying
import SqlFront.Proofs.Parser.Loop
import SqlFront.Proofs.Parser.Run
import SqlFront.Proofs.Parser.Settling
import SqlFront.Proofs.Placeholder.Count
import SqlFront.Proofs.Placeholder.Place
import SqlFront.Proofs.Placeholder.Recorded
import SqlFront.Proofs.Progress.Basic
import SqlFront.Proofs.Progress.Change
import SqlFront.Proofs.Progress.Combinator
import SqlFront.Proofs.Progress.Expression
import SqlFront.Proofs.Progress.Insert
import SqlFront.Proofs.Progress.Query
import SqlFront.Proofs.Progress.Select
import SqlFront.Proofs.Progress.SelectList
import SqlFront.Proofs.Progress.Statement
import SqlFront.Proofs.Progress.Table
import SqlFront.Proofs.Progress.Where
import SqlFront.Proofs.RowLimit
import SqlFront.Proofs.RowLimit.Front
import SqlFront.Proofs.Selection.Chain
import SqlFront.Proofs.Selection.Cut
import SqlFront.Proofs.Selection.Item
import SqlFront.Proofs.Selection.Level
import SqlFront.Proofs.Selection.List
import SqlFront.Proofs.Selection.Modifier
import SqlFront.Proofs.Selection.Part
import SqlFront.Proofs.Selection.Tail
import SqlFront.Proofs.Selection.Turn
import SqlFront.Proofs.SetOperation.Clause
import SqlFront.Proofs.SetOperation.Place
import SqlFront.Proofs.SetOperation.Query
import SqlFront.Proofs.Settings.Layering
import SqlFront.Proofs.Settings.Representation
import SqlFront.Proofs.SortKey.Derived
import SqlFront.Proofs.SortKey.Kept
import SqlFront.Proofs.SortKey.Likeness
import SqlFront.Proofs.SortKey.Source
import SqlFront.Proofs.SortKey.Staging
import SqlFront.Proofs.SortKey.Value
import SqlFront.Proofs.SortKey.Whole
import SqlFront.Proofs.SourceSpan
import SqlFront.Proofs.StringLiteral
import SqlFront.Proofs.Table.Factor
import SqlFront.Proofs.Table.JoinCondition
import SqlFront.Proofs.Table.OneTable
import SqlFront.Proofs.Table.OrderedSet
import SqlFront.Proofs.Table.QuotedName
import SqlFront.Proofs.Table.Reference
import SqlFront.Proofs.Table.Single
import SqlFront.Proofs.TableEdit
import SqlFront.Proofs.Wording.Basic
import SqlFront.Proofs.Wording.Behind
import SqlFront.Proofs.Wording.Clause
import SqlFront.Proofs.Wording.Insertion
import SqlFront.Reading.Basic
import SqlFront.Reading.Change
import SqlFront.Reading.Control
import SqlFront.Reading.Definition
import SqlFront.Reading.Select
import SqlFront.Settings.Basic
import SqlFront.Settings.File
import SqlFront.Sharding.Rule
import SqlFront.Statement.Basic
import SqlFront.Statement.Condition
import SqlFront.Statement.Derived
import SqlFront.Statement.Expression
import SqlFront.Statement.Findings
import SqlFront.Statement.Insertion
import SqlFront.Statement.Merge
import SqlFront.Statement.Query
import SqlFront.Statement.Table
import SqlFront.Text.Character
import SqlFront.Text.LowerCase
import SqlFront.Text.Name
import SqlFront.Text.Table.Cased
import SqlFront.Text.Table.Lower
import SqlFront.Text.Table.Unprintable
import SqlFront.Token.Basic
import SqlFront.Token.Keyword
import SqlFront.Token.Stream
import SqlFront.Toml.Basic
import SqlFront.Toml.Outline
import SqlFront.Toml.Read
import SqlFront.Toml.Write

import SelectForm.Text.Basic
import SelectForm.Text.Blank
import SelectForm.Text.Letter
import SelectForm.Text.Digit
import SelectForm.Text.Uppercase
import SelectForm.Text.Fragment
import SelectForm.Lexis.Cell
import SelectForm.Lexis.Span
import SelectForm.Lexis.Quoted
import SelectForm.Lexis.Keyword
import SelectForm.Lexis.Segment
import SelectForm.Query.Vocabulary
import SelectForm.Query.Identifier
import SelectForm.Query.Operand
import SelectForm.Query.Basic
import SelectForm.Query.Reference
import SelectForm.Query.Rename
import SelectForm.Json.Basic
import SelectForm.Json.Reader
import SelectForm.Json.Writer
import SelectForm.Query.Codec
import SelectForm.Sql.Layout
import SelectForm.Sql.Render
import SelectForm.Statement.ParseError
import SelectForm.Statement.Split
import SelectForm.Statement.Column
import SelectForm.Statement.Operand
import SelectForm.Statement.Condition
import SelectForm.Statement.Lists
import SelectForm.Statement.Cursor
import SelectForm.Statement.Paging
import SelectForm.Statement.Table
import SelectForm.Statement.LocatedClause
import SelectForm.Statement.Parse
import SelectForm.Lexis.Parameter
import SelectForm.Check.Problem
import SelectForm.Check.Warning
import SelectForm.Check.ParameterType
import SelectForm.Service.Settings
import SelectForm.Service.Exchange
import SelectForm.Service.Edit
import SelectForm.Proofs.Check.WellFormed
import SelectForm.Proofs.Query.Canonical
import SelectForm.Proofs.Lexis.Lexeme
import SelectForm.Proofs.Lexis.KeywordMatch
import SelectForm.Proofs.Lexis.Cutting
import SelectForm.Proofs.Lexis.Spans
import SelectForm.Proofs.Text.Bytes
import SelectForm.Proofs.Text.Trim
import SelectForm.Proofs.Text.Name
import SelectForm.Proofs.Text.Number
import SelectForm.Proofs.Lexis.Piece
import SelectForm.Proofs.Text.Balance
import SelectForm.Proofs.Statement.Split
import SelectForm.Proofs.Sql.Pieces
import SelectForm.Proofs.Sql.WrittenCondition
import SelectForm.Proofs.Sql.WrittenItem
import SelectForm.Proofs.Sql.WrittenStatement
import SelectForm.Proofs.Sql.StatementParts
import SelectForm.Proofs.Sql.WrittenLiterals
import SelectForm.Proofs.Sql.WrittenComments
import SelectForm.Proofs.Statement.ReadColumn
import SelectForm.Proofs.Statement.ReadItem
import SelectForm.Proofs.Statement.ReadOperand
import SelectForm.Proofs.Statement.ReadCondition
import SelectForm.Proofs.Statement.CursorPlace
import SelectForm.Proofs.Statement.ReadPaging
import SelectForm.Proofs.Statement.ReadJoin
import SelectForm.Proofs.Statement.ReadClause
import SelectForm.Proofs.Statement.LocateClauses
import SelectForm.Proofs.Statement.WholeStatement
import SelectForm.Proofs.Statement.ReadCanonical
import SelectForm.Proofs.Statement.CollectClauses
import SelectForm.Proofs.Statement.ReadText
import SelectForm.Proofs.Statement.ReadWritten
import SelectForm.Proofs.Check.ReadProblems
import SelectForm.Proofs.Statement.RoundTrip
import SelectForm.Proofs.Statement.SpelledStatement
import SelectForm.Proofs.Sql.ScannedStatement
import SelectForm.Proofs.Query.Renaming
import SelectForm.Proofs.Lexis.FineRow
import SelectForm.Proofs.Lexis.RowMatch
import SelectForm.Proofs.Lexis.Alike
import SelectForm.Proofs.Lexis.RowCut
import SelectForm.Proofs.Lexis.RowText
import SelectForm.Proofs.Statement.SplitRow
import SelectForm.Proofs.Statement.AlikeFragment
import SelectForm.Proofs.Statement.AlikeCondition
import SelectForm.Proofs.Statement.AlikeFrom
import SelectForm.Proofs.Statement.AlikePaging
import SelectForm.Proofs.Statement.AlikeClause
import SelectForm.Proofs.Statement.AlikeStatement
import SelectForm.Proofs.Query.Likeness
import SelectForm.Proofs.Lexis.MaskedRow
import SelectForm.Proofs.Lexis.Token
import SelectForm.Proofs.Query.Tokens
import SelectForm.Proofs.Statement.HeldFragment
import SelectForm.Proofs.Statement.HeldItem
import SelectForm.Proofs.Lexis.RowSpans
import SelectForm.Proofs.Lexis.MaskedText
import SelectForm.Proofs.Statement.HeldOperand
import SelectForm.Proofs.Statement.HeldCondition
import SelectForm.Proofs.Statement.HeldClause
import SelectForm.Proofs.Statement.HeldPaging
import SelectForm.Proofs.Statement.HeldStatement
import SelectForm.Proofs.Lexis.HeldParameters
import SelectForm.Proofs.Check.Distinct
import SelectForm.Proofs.Check.ParsedParameters
import SelectForm.Proofs.Text.Respelled
import SelectForm.Proofs.Query.Recased
import SelectForm.Proofs.Statement.RespelledItem
import SelectForm.Proofs.Statement.RespelledRead
import SelectForm.Proofs.Lexis.RecasedText
import SelectForm.Proofs.Statement.RecasedStatement
import SelectForm.Proofs.Lexis.RelaidText
import SelectForm.Proofs.Statement.RelaidStatement
import SelectForm.Proofs.Query.Blanked
import SelectForm.Proofs.Lexis.RefilledText
import SelectForm.Proofs.Statement.RefilledStatement
import SelectForm.Proofs.Lexis.Entries
import SelectForm.Proofs.Statement.BeforePaging
import SelectForm.Proofs.Statement.ParsedEntries
import SelectForm.Proofs.Lexis.PositionalText
import SelectForm.Proofs.Check.WrittenParameters
import SelectForm.Proofs.Check.FirstDefinite
import SelectForm.Proofs.Json.SparseRecord
import SelectForm.Proofs.Json.TextRoundTrip
import SelectForm.Proofs.Query.SparseForm
import SelectForm.Proofs.Statement.PlacedFragment
import SelectForm.Proofs.Statement.PlacedError
import SelectForm.Proofs.Statement.PlacedPaging
import SelectForm.Proofs.Statement.PlacedStatement
import SelectForm.Proofs.Statement.ChainPlaces
import SelectForm.Proofs.Statement.ClosedRow
import SelectForm.Proofs.Statement.UnmarkedRow
import SelectForm.Proofs.Statement.UnmarkedOperand
import SelectForm.Proofs.Lexis.CellMatch
import SelectForm.Proofs.Lexis.PhrasePlaces
import SelectForm.Proofs.Statement.SettledCondition
import SelectForm.Proofs.Statement.NegatedCondition
import SelectForm.Proofs.Statement.JoinedConditions
import SelectForm.Proofs.Lexis.Recut
import SelectForm.Proofs.Statement.ReadLocated
import SelectForm.Proofs.Statement.LocatedTiles
import SelectForm.Proofs.Query.RenamingOrder
import SelectForm.Proofs.Check.AliasWarnings
import SelectForm.Proofs.Check.IdleDistinct
import SelectForm.Proofs.Statement.CursorCells
import SelectForm.Proofs.Statement.PagingGrammar
import SelectForm.Proofs.Statement.ListPlaces
import SelectForm.Proofs.Statement.KeywordSearch
import SelectForm.Proofs.Statement.JoinChain
import SelectForm.Proofs.Statement.SharedClause
import SelectForm.Proofs.Lexis.SplitScan
import SelectForm.Proofs.Check.WrittenNumbers
import SelectForm.Proofs.Statement.EnclosedGroup
import SelectForm.Proofs.Statement.CursorRun
import SelectForm.Proofs.Text.Cuts
import SelectForm.Proofs.Lexis.ByteScan
import SelectForm.Proofs.Lexis.ByteKeyword
import SelectForm.Proofs.Statement.ByteSearch
import SelectForm.Proofs.Statement.ByteSplit
import SelectForm.Proofs.Statement.Checked
import SelectForm.Proofs.Statement.ByteCondition
import SelectForm.Proofs.Statement.ByteCursor
import SelectForm.Proofs.Statement.ByteTable
import SelectForm.Proofs.Statement.ByteClause
import SelectForm.Proofs.Statement.ByteChecks
import SelectForm.Proofs.Statement.ByteStatement
import SelectForm.Proofs.Statement.SafeSlices

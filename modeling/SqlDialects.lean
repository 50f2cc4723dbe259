import SqlDialects.Main
import SqlDialects.Proofs.Nodes
import SqlDialects.Proofs.Layout
import SqlDialects.Proofs.Template
import SqlDialects.Proofs.BindOrder
import SqlDialects.Proofs.BareParams
import SqlDialects.Proofs.BindSequence
import SqlDialects.Proofs.Lexemes
import SqlDialects.Proofs.Spelling
import SqlDialects.Proofs.Phrases
import SqlDialects.Proofs.Reading
import SqlDialects.Proofs.Operands
import SqlDialects.Proofs.Primaries
import SqlDialects.Proofs.Selects
import SqlDialects.Proofs.Climbing
import SqlDialects.Proofs.Respelling
import SqlDialects.Proofs.Expressive
import SqlDialects.Proofs.Rereading
import SqlDialects.Proofs.RowLimits
import SqlDialects.Proofs.Pages
import SqlDialects.Proofs.PagesReread
import SqlDialects.Proofs.OperatorTrees
import SqlDialects.Proofs.Sayable
import SqlDialects.Proofs.Saying
import SqlDialects.Proofs.Productions
import SqlDialects.Proofs.Validity
import SqlDialects.Proofs.Excerpts
import SqlDialects.Proofs.Mirroring
import SqlDialects.Proofs.Independence
import SqlDialects.Proofs.Agreement
import SqlDialects.Proofs.Nesting
import SqlDialects.Proofs.IntervalChains
import SqlDialects.Proofs.Truncation
import SqlDialects.Proofs.Prefixes
import SqlDialects.Proofs.Coverage
import SqlDialects.Proofs.Leaves
import SqlDialects.Proofs.Tally
import SqlDialects.Proofs.Accounts
import SqlDialects.Proofs.ExprAccounts
import SqlDialects.Proofs.StatementAccounts
import SqlDialects.Proofs.ValuesKept
import SqlDialects.Proofs.Discipline
import SqlDialects.Proofs.WrittenTexts
import SqlDialects.Proofs.Trivia
import SqlDialects.Proofs.Registrations
import SqlDialects.Proofs.Quoting
import SqlDialects.Proofs.LayoutTokens
import SqlDialects.Proofs.CommentEnds
import SqlDialects.Proofs.IntervalTexts
import SqlDialects.Proofs.Origins
import SqlDialects.Proofs.OffsetClauses
import SqlDialects.Proofs.CallSurvival
import SqlDialects.Proofs.OperatorTable
import SqlDialects.Proofs.TypeNames
import SqlDialects.Proofs.FirstTokens
import SqlDialects.Proofs.RestoredGrammar
import SqlDialects.Proofs.RestoredSchema
import SqlDialects.Proofs.RoundTrip

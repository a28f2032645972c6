import Spreadsheet.Expr.WalkScript
import Spreadsheet.Proofs.LinkedArena.Listed
import Spreadsheet.Proofs.Sheet.Calls
import Spreadsheet.Sheet.Bands
import Spreadsheet.Sheet.Commands
import Spreadsheet.Proofs.Sheet.Stores
import Spreadsheet.Proofs.Sheet.Extents
import Spreadsheet.Proofs.Sheet.Repetition
import Spreadsheet.Proofs.Expr.Unambiguous
import Spreadsheet.Proofs.Expr.Citations
import Spreadsheet.Proofs.Expr.Canonical
import Spreadsheet.Proofs.IntervalMap.Dense
import Spreadsheet.Proofs.Sheet.Undo
import Spreadsheet.Proofs.Grid.Walks
import Spreadsheet.Proofs.Token.Bytes
import Spreadsheet.Proofs.Sheet.Facts
import Spreadsheet.Proofs.Sheet.Transfers
import Spreadsheet.Proofs.Evaluation.Silence
import Spreadsheet.Proofs.Words.Commands
import Spreadsheet.Proofs.Reference.Erasure
import Spreadsheet.Proofs.Reference.Insertion
import Spreadsheet.Proofs.Address.Bytes
import Spreadsheet.Proofs.Expr.Tour
import Spreadsheet.Proofs.Evaluation.Calls
import Spreadsheet.Proofs.Evaluation.Forms
import Spreadsheet.Proofs.IntervalMap.Pieces
import Spreadsheet.Proofs.LinkedArena.Ledger
import Spreadsheet.Proofs.Reference.Areas
import Spreadsheet.Proofs.Operation.Order
import Spreadsheet.Proofs.Token.Rejection
import Spreadsheet.Proofs.Expr.UnreadCalls
import Spreadsheet.Proofs.Expr.Reentry

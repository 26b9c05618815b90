import Lexis.Complete
import Lexis.Main
import Lexis.Scanner.Checked
import Lexis.Proofs.Lexeme
import Lexis.Proofs.StringItem
import Lexis.Proofs.Symbol
import Lexis.Proofs.Segment
import Lexis.Proofs.SegmentRow
import Lexis.Proofs.Separator
import Lexis.Proofs.Motion
import Lexis.Proofs.OpenText
import Lexis.Proofs.Composition
import Lexis.Proofs.Tiling
import Lexis.Proofs.LongestMatch
import Lexis.Proofs.Cursor
import Lexis.Proofs.CheckedScan
import Lexis.Proofs.SourceMap
import Lexis.Proofs.Places
import Lexis.Proofs.Cut
import Lexis.Proofs.LineFeed
import Lexis.Proofs.Input
import Lexis.Proofs.Content
import Lexis.Proofs.Session
import Lexis.Proofs.ErrorOrder
import Lexis.Proofs.Display
import Lexis.Proofs.StringLiteral
import Lexis.Proofs.Group
import Lexis.Proofs.Recovery
import Lexis.Proofs.Trivia
import Lexis.Proofs.Growth
import Lexis.Proofs.Separated
import Lexis.Proofs.SourceLines
import Lexis.Proofs.CarriageReturn
import Lexis.Proofs.Highlight
import Lexis.Proofs.Log
import Lexis.Proofs.Completion
import Lexis.Proofs.Reports
import Lexis.Proofs.LoadLine
import Lexis.Proofs.Number
import Lexis.Proofs.Decimal
import Lexis.Proofs.Batch
import Lexis.Proofs.ConfigDocument
import Lexis.Proofs.Dump
import Lexis.Proofs.CursorRun

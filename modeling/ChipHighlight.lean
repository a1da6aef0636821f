import ChipHighlight.Checkpoint
import ChipHighlight.Cursor.Action
import ChipHighlight.Editor
import ChipHighlight.Log
import ChipHighlight.Session.Basic
import ChipHighlight.Proofs.Config.Equality
import ChipHighlight.Proofs.Text.LineEnds
import ChipHighlight.Proofs.Line.Rows
import ChipHighlight.Proofs.Highlighter.Rescan
import ChipHighlight.Proofs.Highlighter.UpToDate
import ChipHighlight.Proofs.Session.Editing
import ChipHighlight.Proofs.Highlighter.Rejected
import ChipHighlight.Proofs.Cursor.Reads
import ChipHighlight.Proofs.Line.Tiling
import ChipHighlight.Proofs.Lexeme.Marks
import ChipHighlight.Proofs.Line.Outline
import ChipHighlight.Proofs.Reading.Lookahead
import ChipHighlight.Proofs.Cursor.Lookahead
import ChipHighlight.Proofs.Line.Cut
import ChipHighlight.Proofs.Literal.Nesting
import ChipHighlight.Proofs.Line.Nesting
import ChipHighlight.Proofs.Highlighter.Beginning
import ChipHighlight.Proofs.Highlighter.InOrder
import ChipHighlight.Proofs.Session.Highlighting
import ChipHighlight.Proofs.Scan.AtOnce
import ChipHighlight.Proofs.Session.Cells
import ChipHighlight.Proofs.Session.Pulling
import ChipHighlight.Proofs.Session.Interleaving
import ChipHighlight.Proofs.Line.Origin
import ChipHighlight.Proofs.Line.Twins
import ChipHighlight.Proofs.Calls.Frame
import ChipHighlight.Proofs.Literal.Actions
import ChipHighlight.Proofs.Calls.Discipline
import ChipHighlight.Proofs.Calls.Opening
import ChipHighlight.Proofs.Line.Gaps
import ChipHighlight.Proofs.Highlighter.Cost
import ChipHighlight.Proofs.Profile.Tally
import ChipHighlight.Proofs.Session.Effects
import ChipHighlight.Proofs.Session.Scopes
import ChipHighlight.Proofs.Session.Restored
import ChipHighlight.Proofs.Scan.Account
import ChipHighlight.Proofs.Session.Conservation
import ChipHighlight.Proofs.Session.KeptGaps
import ChipHighlight.Proofs.Text.LongestMatch
import ChipHighlight.Proofs.Reading.Grammar
import ChipHighlight.Proofs.Cursor.Munch
import ChipHighlight.Proofs.Lexeme.Sharps
import ChipHighlight.Proofs.Reading.Alone
import ChipHighlight.Proofs.Cursor.Alone
import ChipHighlight.Proofs.Line.Sharps
import ChipHighlight.Proofs.Scan.Resuming
import ChipHighlight.Proofs.Session.Resumed
import ChipHighlight.Proofs.Session.Updating
import ChipHighlight.Proofs.Session.Reports
import ChipHighlight.Proofs.Session.Alike
import ChipHighlight.Proofs.Config.Faults
import ChipHighlight.Proofs.Config.Accepted
import ChipHighlight.Proofs.Text.Splitter
import ChipHighlight.Proofs.Cursor.Stepwise
import ChipHighlight.Proofs.Cursor.Visits
import ChipHighlight.Proofs.Scan.Refusing

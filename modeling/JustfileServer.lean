import JustfileServer.Navigation.Cursor
import JustfileServer.Text.Blank
import JustfileServer.Text.DecimalDigit
import JustfileServer.Text.Quoted
import JustfileServer.Json.Reader
import JustfileServer.Json.Writer
import JustfileServer.Frame.Reader
import JustfileServer.Frame.Writer
import JustfileServer.Rpc.Loop
import JustfileServer.Server.Session
import JustfileServer.Command.Run
import JustfileServer.Main
import JustfileServer.Proofs.Results
import JustfileServer.Proofs.Text.Numerals
import JustfileServer.Proofs.Text.Utf8RoundTrip
import JustfileServer.Proofs.Text.LooseIntegers
import JustfileServer.Proofs.Text.Trimming
import JustfileServer.Proofs.Json.Parts
import JustfileServer.Proofs.Json.Strings
import JustfileServer.Proofs.Json.RoundTrip
import JustfileServer.Proofs.Json.Surrogates
import JustfileServer.Proofs.Frame.Blocks
import JustfileServer.Proofs.Frame.WrittenHeader
import JustfileServer.Proofs.Frame.Receiving
import JustfileServer.Proofs.Frame.RoundTrip
import JustfileServer.Proofs.Frame.HeaderLines
import JustfileServer.Proofs.Frame.LastLength
import JustfileServer.Proofs.Frame.HeaderReading
import JustfileServer.Proofs.Frame.Reports
import JustfileServer.Proofs.Frame.Growth
import JustfileServer.Proofs.Rpc.Actions
import JustfileServer.Proofs.Rpc.Messages
import JustfileServer.Proofs.Rpc.Dispatching
import JustfileServer.Proofs.Rpc.Calls
import JustfileServer.Proofs.Rpc.Preservation
import JustfileServer.Proofs.Rpc.Replies
import JustfileServer.Proofs.Rpc.Conversation
import JustfileServer.Proofs.Rpc.Endings
import JustfileServer.Proofs.Rpc.Tracking
import JustfileServer.Proofs.Rpc.Refinement
import JustfileServer.Proofs.Rpc.Faults
import JustfileServer.Proofs.Json.Bounds
import JustfileServer.Proofs.Json.Steps
import JustfileServer.Proofs.Json.LongIntegers
import JustfileServer.Proofs.Justfile.LineTable
import JustfileServer.Proofs.Justfile.Roles
import JustfileServer.Proofs.Justfile.Extent
import JustfileServer.Proofs.Justfile.Runs
import JustfileServer.Proofs.Justfile.Mentions
import JustfileServer.Proofs.Justfile.Ownership
import JustfileServer.Proofs.Justfile.Shifts
import JustfileServer.Proofs.Justfile.Joining
import JustfileServer.Proofs.Justfile.Reading
import JustfileServer.Proofs.Justfile.Names
import JustfileServer.Proofs.Justfile.Padding
import JustfileServer.Proofs.Justfile.Spans
import JustfileServer.Proofs.Text.AsciiBytes
import JustfileServer.Proofs.Text.Columns
import JustfileServer.Proofs.Text.Boundaries
import JustfileServer.Proofs.Justfile.LineTexts
import JustfileServer.Proofs.Justfile.Terminators
import JustfileServer.Proofs.Justfile.Pieces
import JustfileServer.Proofs.Justfile.Rebuilding
import JustfileServer.Proofs.Justfile.Dependencies
import JustfileServer.Proofs.Justfile.Scanning
import JustfileServer.Proofs.Justfile.SpanTexts
import JustfileServer.Proofs.Justfile.Tally
import JustfileServer.Proofs.Justfile.Tables
import JustfileServer.Proofs.Justfile.Index
import JustfileServer.Proofs.Justfile.Keys
import JustfileServer.Proofs.Justfile.LineEndings
import JustfileServer.Proofs.Navigation.Words
import JustfileServer.Proofs.Navigation.Pairs
import JustfileServer.Proofs.Navigation.Scopes
import JustfileServer.Proofs.Navigation.Cursors
import JustfileServer.Proofs.Navigation.Positions
import JustfileServer.Proofs.Navigation.LineEnds
import JustfileServer.Proofs.Navigation.PaddedTexts
import JustfileServer.Proofs.Navigation.Ranges
import JustfileServer.Proofs.Navigation.Braces
import JustfileServer.Proofs.Navigation.Headers
import JustfileServer.Proofs.Server.Readable
import JustfileServer.Proofs.Server.Containment
import JustfileServer.Proofs.Server.Definitions
import JustfileServer.Proofs.Server.Occurrences
import JustfileServer.Proofs.Server.Findings
import JustfileServer.Proofs.Server.Dependencies
import JustfileServer.Proofs.Server.Return
import JustfileServer.Proofs.Server.Terminators
import JustfileServer.Proofs.Server.Steadiness
import JustfileServer.Proofs.Server.Documents
import JustfileServer.Proofs.Server.Answers
import JustfileServer.Proofs.Server.Handled
import JustfileServer.Proofs.Server.Uses
import JustfileServer.Proofs.Server.Lifecycle
import JustfileServer.Proofs.Server.Sessions
import JustfileServer.Proofs.Server.Atomicity
import JustfileServer.Proofs.Server.History
import JustfileServer.Proofs.Server.Failures
import JustfileServer.Proofs.Server.Bodies
import JustfileServer.Proofs.Command.Accounts

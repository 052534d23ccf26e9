import Lexkit.Text.Basic
import Lexkit.Text.Alphabet
import Lexkit.Text.Comment
import Lexkit.Text.Printable
import Lexkit.Text.Quoted
import Lexkit.Text.Literal
import Lexkit.Identifier
import Lexkit.Cursor
import Lexkit.Lines
import Lexkit.Scan.State
import Lexkit.Scan.Failure
import Lexkit.Scan.Outcome
import Lexkit.Scan.Skip
import Lexkit.Scan.Span
import Lexkit.Scan.Trivia
import Lexkit.Scan.Action
import Lexkit.Scan.Script
import Lexkit.Bytes.Decode
import Lexkit.Bytes.Narrow
import Lexkit.Bytes.Utf8
import Lexkit.Bytes.Utf16
import Lexkit.Bytes.Encoding
import Lexkit.Bytes.Codec
import Lexkit.Files.Path
import Lexkit.Files.Host
import Lexkit.Files.Tree
import Lexkit.Files.Source
import Lexkit.Proofs.Motion
import Lexkit.Proofs.Gap
import Lexkit.Proofs.LineWalk
import Lexkit.Proofs.Recovery
import Lexkit.Proofs.Assignments
import Lexkit.Proofs.Counting
import Lexkit.Proofs.Step
import Lexkit.Proofs.Reach
import Lexkit.Proofs.Held
import Lexkit.Proofs.Shift
import Lexkit.Proofs.Unrolled
import Lexkit.Proofs.Transcript
import Lexkit.Proofs.Forward
import Lexkit.Proofs.Lenient
import Lexkit.Proofs.Twin
import Lexkit.Proofs.Partition
import Lexkit.Proofs.Decoding
import Lexkit.Proofs.Utf8
import Lexkit.Proofs.Utf16
import Lexkit.Proofs.Writes
import Lexkit.Proofs.Paths
import Lexkit.Proofs.Loading
import Lexkit.Proofs.Extent
import Lexkit.Proofs.Loops
import Lexkit.Proofs.SpanLoops
import Lexkit.Proofs.Rounds
import Lexkit.Proofs.Openers
import Lexkit.Proofs.Lookahead
import Lexkit.Proofs.Reading
import Lexkit.Proofs.Sigils
import Lexkit.Proofs.Faults
import Lexkit.Proofs.Legible
import Lexkit.Proofs.Shown
import Lexkit.Proofs.PutBack

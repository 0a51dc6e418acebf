import LongPress.Main
import LongPress.Proofs.History
import LongPress.Proofs.Sending
import LongPress.Proofs.Agreement
import LongPress.Proofs.Alternation
import LongPress.Proofs.Order
import LongPress.Proofs.Ownership
import LongPress.Proofs.Polling
import LongPress.Proofs.Once
import LongPress.Proofs.Down
import LongPress.Proofs.Carried
import LongPress.Proofs.Modifiers
import LongPress.Proofs.NoStuckKey
import LongPress.Proofs.Host
import LongPress.Proofs.Form
import LongPress.Proofs.GivenBack
import LongPress.Proofs.Calm
import LongPress.Proofs.Level
import LongPress.Proofs.Schedule
import LongPress.Proofs.Wraparound
import LongPress.Proofs.Reader
import LongPress.Proofs.Tracking
import LongPress.Proofs.HandOff
import LongPress.Proofs.Endings
import LongPress.Proofs.Lasting
import LongPress.Proofs.Routing
import LongPress.Proofs.Board
import LongPress.Proofs.NoStaleKey
import LongPress.Proofs.Holding
import LongPress.Proofs.NoStrandedKey
import LongPress.Proofs.Deadline
import LongPress.Proofs.TwoReaders
import LongPress.Proofs.Transfer
import LongPress.Proofs.Assignments
import LongPress.Proofs.Pieces
import LongPress.Proofs.Statements
import LongPress.Proofs.FirstFault
import LongPress.Proofs.AsWritten
import LongPress.Proofs.Canonical
import LongPress.Proofs.Passing
import LongPress.Proofs.Repeats
import LongPress.Proofs.LeftAlone
import LongPress.Proofs.TimeoutText
import LongPress.Proofs.Losses
import LongPress.Proofs.Names
import LongPress.Proofs.Chords
import LongPress.Proofs.Compounds
import LongPress.Proofs.Descriptions
import LongPress.Proofs.SetOfCodes
import LongPress.Proofs.Layout
import LongPress.Proofs.Shown
import LongPress.Proofs.WrittenOut
import LongPress.Proofs.Paths
import LongPress.Proofs.Commands
import LongPress.Proofs.Files

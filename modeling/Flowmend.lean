import Flowmend.CommandLine.Run
import Flowmend.Main
import Flowmend.Proofs.CommandLine.Run
import Flowmend.Proofs.Drawing.Failure
import Flowmend.Proofs.Drawing.Heads
import Flowmend.Proofs.Drawing.Strokes
import Flowmend.Proofs.Fence.Marked
import Flowmend.Proofs.Graph.Append
import Flowmend.Proofs.Graph.Sound
import Flowmend.Proofs.Label.Form
import Flowmend.Proofs.Layout
import Flowmend.Proofs.Repair.Brackets
import Flowmend.Proofs.Repair.Canonical
import Flowmend.Proofs.Repair.Events
import Flowmend.Proofs.Repair.Fresh
import Flowmend.Proofs.Repair.Header
import Flowmend.Proofs.Repair.Lines
import Flowmend.Proofs.Repair.Reading
import Flowmend.Proofs.Repair.Recorded
import Flowmend.Proofs.Repair.Split
import Flowmend.Proofs.Repair.Structure
import Flowmend.Proofs.Repair.Tokens
import Flowmend.Proofs.Repair.Written
import Flowmend.Proofs.Session.Isolation
import Flowmend.Proofs.Session.Results
import Flowmend.Proofs.Session.Shown
import Flowmend.Proofs.Session.Stages
import Flowmend.Proofs.Session.Supersession
import Flowmend.Proofs.Statement.Division
import Flowmend.Proofs.Statement.Span
import Flowmend.Proofs.Fence

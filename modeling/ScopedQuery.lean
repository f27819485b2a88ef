import ScopedQuery.Main
import ScopedQuery.Proofs.Pending
import ScopedQuery.Proofs.Phrase
import ScopedQuery.Query.Node
import ScopedQuery.Proofs.Shown
import ScopedQuery.Proofs.Sound
import ScopedQuery.Proofs.Complete
import ScopedQuery.Proofs.Scanned
import ScopedQuery.Proofs.Grammar
import ScopedQuery.Proofs.Lexing
import ScopedQuery.Proofs.RoundTrip
import ScopedQuery.Proofs.Drive
import ScopedQuery.Proofs.Course
import ScopedQuery.Proofs.Eager
import ScopedQuery.Proofs.Carry
import ScopedQuery.Proofs.Unified
import ScopedQuery.Proofs.LineBreaks
import ScopedQuery.Proofs.Trivia
import ScopedQuery.Proofs.Partition
import ScopedQuery.Proofs.Places
import ScopedQuery.Proofs.Pointing
import ScopedQuery.Proofs.NodePlaces
import ScopedQuery.Proofs.Compose
import ScopedQuery.Proofs.Printing
import ScopedQuery.Proofs.Accumulated
import ScopedQuery.Proofs.ReadBack
import ScopedQuery.Proofs.Rewriting
import ScopedQuery.Proofs.Stepping
import ScopedQuery.Proofs.Frames
import ScopedQuery.Proofs.Endings
import ScopedQuery.Proofs.Context
import ScopedQuery.Proofs.Unclosed
import ScopedQuery.Proofs.Terms
import ScopedQuery.Proofs.Views
import ScopedQuery.Proofs.JsonReading
import ScopedQuery.Proofs.Recovered
import ScopedQuery.Proofs.Alike
import ScopedQuery.Proofs.Terminators
import ScopedQuery.Proofs.Moves
import ScopedQuery.Proofs.Tape
import ScopedQuery.Proofs.Depth
import ScopedQuery.Proofs.Sessions
import ScopedQuery.Proofs.AllOrNothing
import ScopedQuery.Proofs.Trace
import ScopedQuery.Proofs.CursorCalls

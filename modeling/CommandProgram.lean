import CommandProgram.Chain.Teardown
import CommandProgram.Command.Document
import CommandProgram.Environment.Inspect
import CommandProgram.Environment.Routine
import CommandProgram.Program.Tree
import CommandProgram.Script.Rehearsal
import CommandProgram.Script.Stepping
import CommandProgram.Session
import CommandProgram.Proofs.Adequacy
import CommandProgram.Proofs.Bracketing
import CommandProgram.Proofs.TypeSafety
import CommandProgram.Proofs.Drivers
import CommandProgram.Proofs.History
import CommandProgram.Proofs.Recording
import CommandProgram.Proofs.Observers
import CommandProgram.Proofs.SplitStacks
import CommandProgram.Proofs.FaultInjection
import CommandProgram.Proofs.Quieting
import CommandProgram.Proofs.Following
import CommandProgram.Proofs.PlainNames
import CommandProgram.Proofs.Rehearsal
import CommandProgram.Proofs.LiveAgreement
import CommandProgram.Proofs.MockMemory
import CommandProgram.Proofs.LayerStacks
import CommandProgram.Proofs.Counting
import CommandProgram.Proofs.Accounts
import CommandProgram.Proofs.Segments
import CommandProgram.Proofs.ConsoleReading
import CommandProgram.Proofs.LineRoundTrip
import CommandProgram.Proofs.Termination
import CommandProgram.Proofs.Substitution
import CommandProgram.Proofs.Discarding
import CommandProgram.Proofs.Sequencing
import CommandProgram.Proofs.Accesses
import CommandProgram.Proofs.OutputFailures
import CommandProgram.Proofs.ConsoleReaders
import CommandProgram.Proofs.Ledgers
import CommandProgram.Proofs.Conservation
import CommandProgram.Proofs.Passages
import CommandProgram.Proofs.TraceNesting
import CommandProgram.Proofs.FaultRates
import CommandProgram.Proofs.Consumption
import CommandProgram.Proofs.Bridging
import CommandProgram.Proofs.Interchange
import CommandProgram.Proofs.Courses
import CommandProgram.Proofs.FailedReads
import CommandProgram.Proofs.FileWrites
import CommandProgram.Proofs.LineNumbering
import CommandProgram.Proofs.Splicing
import CommandProgram.Proofs.LettingGo
import CommandProgram.Proofs.Rereading

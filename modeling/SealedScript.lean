import SealedScript.CommandLine.Command
import SealedScript.CommandLine.Arguments
import SealedScript.CommandLine.FileTree
import SealedScript.Console
import SealedScript.Library
import SealedScript.Main
import SealedScript.Program.Parser
import SealedScript.Schedule
import SealedScript.Schedule.Delay
import SealedScript.Settings
import SealedScript.Value.Operators
import SealedScript.Machine.Run
import SealedScript.Proofs.Cipher.RoundTrip
import SealedScript.Proofs.Machine.Balance
import SealedScript.Proofs.Machine.CountedTask
import SealedScript.Proofs.Machine.Isolation
import SealedScript.Proofs.Machine.Sealing
import SealedScript.Proofs.Machine.ServiceLoop
import SealedScript.Proofs.Machine.Transparency
import SealedScript.Proofs.Program.RoundTrip
import SealedScript.Proofs.Program.Unmarked
import SealedScript.Proofs.Value.ReadBack
import SealedScript.Proofs.Token.Lossless
import SealedScript.Proofs.Program.Nesting
import SealedScript.Proofs.Machine.Printing
import SealedScript.Proofs.Schedule.Bookkeeping
import SealedScript.Proofs.Machine.Accounting
import SealedScript.Proofs.Machine.Names
import SealedScript.Proofs.Program.Locality
import SealedScript.Proofs.Program.Seam
import SealedScript.Proofs.Program.Lookahead
import SealedScript.Proofs.Machine.Composition
import SealedScript.Proofs.Cipher.Canonical
import SealedScript.Proofs.Machine.Concealment
import SealedScript.Proofs.Machine.Delays
import SealedScript.Proofs.Number.FloatText
import SealedScript.Proofs.Value.Splitting
import SealedScript.Proofs.Value.Trees
import SealedScript.Proofs.Value.Legible
import SealedScript.Proofs.Number.Packing
import SealedScript.Proofs.Number.Shortest
import SealedScript.Proofs.Number.Scientific
import SealedScript.Proofs.Machine.Arming
import SealedScript.Proofs.Machine.Elements
import SealedScript.Proofs.Machine.Parameters
import SealedScript.Proofs.Token.Respelling
import SealedScript.Proofs.Value.WholeArithmetic
import SealedScript.Proofs.Machine.DepthLimit
import SealedScript.Proofs.Machine.ForLoop
import SealedScript.Proofs.Value.Equality
import SealedScript.Proofs.Ledger.Solvency
import SealedScript.Proofs.Settings.LastWins
import SealedScript.Proofs.CommandLine.Options
import SealedScript.Proofs.Machine.Dialogue
import SealedScript.Proofs.Value.ListText

import Lox.Main
import Lox.Proofs.Grammar
import Lox.Proofs.Syntax.Written
import Lox.Proofs.Syntax.Spells
import Lox.Proofs.Parser.ExpressionSound
import Lox.Proofs.Parser.ExpressionComplete
import Lox.Proofs.Parser.StatementSound
import Lox.Proofs.Parser.StatementComplete
import Lox.Proofs.Parser.Program
import Lox.Proofs.Resolution.Scopes
import Lox.Proofs.Parser.StatementIds
import Lox.Proofs.Syntax.Names
import Lox.Proofs.Resolution.Sound
import Lox.Proofs.Resolution.Landmarks
import Lox.Proofs.Resolution.Nesting
import Lox.Proofs.Resolution.Places
import Lox.Proofs.Resolution.Walk
import Lox.Proofs.Resolution.Lexical
import Lox.Proofs.Session.Scoping
import Lox.Proofs.Evaluation.Reference
import Lox.Proofs.Evaluation.World
import Lox.Proofs.Evaluation.Simulation
import Lox.Proofs.Evaluation.Steps
import Lox.Proofs.Evaluation.Lookup
import Lox.Proofs.Evaluation.Actions
import Lox.Proofs.Evaluation.Names
import Lox.Proofs.Evaluation.Calls
import Lox.Proofs.Evaluation.Agreement
import Lox.Proofs.Grammar.Derivable
import Lox.Proofs.Grammar.Readable
import Lox.Proofs.Receiver.Lexical
import Lox.Proofs.Receiver.Invariant
import Lox.Proofs.Receiver.Steps
import Lox.Proofs.Receiver.Methods
import Lox.Proofs.Receiver.Agreement
import Lox.Proofs.Session.Receiver
import Lox.Proofs.Alike.Trees
import Lox.Proofs.Alike.Static
import Lox.Proofs.Alike.Steps
import Lox.Proofs.Alike.Reading
import Lox.Proofs.Scanning.Joint
import Lox.Proofs.Alike.Machines
import Lox.Proofs.Alike.Evaluation
import Lox.Proofs.Session.Alike
import Lox.Proofs.Session.Concatenation
import Lox.Proofs.Scanning.Lines
import Lox.Proofs.Scanning.Spacing
import Lox.Proofs.Trace.Evaluation
import Lox.Proofs.Trace.Following
import Lox.Proofs.Trace.Session
import Lox.Proofs.Trace.Printing
import Lox.Proofs.Session.ClosingSink
import Lox.Proofs.Frame.Invariant
import Lox.Proofs.Frame.Steps
import Lox.Proofs.Frame.Evaluation
import Lox.Proofs.Session.Frame
import Lox.Proofs.Evaluation.Congruence
import Lox.Proofs.Resolution.TopLevel
import Lox.Proofs.Session.Steps
import Lox.Proofs.Session.PrintedValue
import Lox.Proofs.Session.Rejection
import Lox.Proofs.Trace.Logging
import Lox.Proofs.Evaluation.Values
import Lox.Proofs.Resolution.Returns
import Lox.Proofs.Activation.Recording
import Lox.Proofs.Activation.Returns
import Lox.Proofs.Locality.Reaches
import Lox.Proofs.Locality.Steps
import Lox.Proofs.Locality.Evaluation
import Lox.Proofs.Syntax.Plain
import Lox.Proofs.Chronicle.Evaluation
import Lox.Proofs.Chronicle.Invariant
import Lox.Proofs.Chronicle.Steps
import Lox.Proofs.Chronicle.Runs
import Lox.Proofs.Session.Chronicle
import Lox.Proofs.Session.Locality
import Lox.Proofs.Session.Initializers
import Lox.Proofs.Resolution.Entries
import Lox.Proofs.Session.Readings
import Lox.Proofs.Syntax.Lawful
import Lox.Proofs.Parser.Runs
import Lox.Proofs.Parser.ExpressionRuns
import Lox.Proofs.Parser.StatementRuns
import Lox.Proofs.Parser.Recovery
import Lox.Proofs.Parser.Cursor
import Lox.Proofs.Parser.EndOfInput
import Lox.Proofs.Parser.Progress
import Lox.Proofs.Parser.Prefix
import Lox.Proofs.Lawful.Steps
import Lox.Proofs.Lawful.Evaluation
import Lox.Proofs.Lawful.Parsed
import Lox.Proofs.Evaluation.Links
import Lox.Proofs.Scanning.Bytes
import Lox.Proofs.Scanning.Cursor
import Lox.Proofs.Printed.Bracketed
import Lox.Proofs.Printed.Trees
import Lox.Proofs.Printed.Legible
import Lox.Proofs.Printed.Unique
import Lox.Proofs.Loops.Fuel
import Lox.Proofs.Loops.Copies
import Lox.Proofs.Loops.Pairings
import Lox.Proofs.Loops.Steps
import Lox.Proofs.Loops.Evaluation
import Lox.Proofs.Loops.Places
import Lox.Proofs.Loops.Direct
import Lox.Proofs.Loops.Closed
import Lox.Proofs.Loops.Resolved
import Lox.Proofs.Loops.Meaning

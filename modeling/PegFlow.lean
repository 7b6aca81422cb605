import PegFlow.Buffer
import PegFlow.CharClass
import PegFlow.CharClass.Notation
import PegFlow.Decimal
import PegFlow.Fault
import PegFlow.Format
import PegFlow.Grammar
import PegFlow.Grammar.Annotated
import PegFlow.Grammar.Build
import PegFlow.Grammar.Constants
import PegFlow.Grammar.Error
import PegFlow.Grammar.Failing
import PegFlow.Grammar.Format
import PegFlow.Grammar.Json
import PegFlow.Grammar.LeftRecursion
import PegFlow.Grammar.Nullable
import PegFlow.Grammar.Numbering
import PegFlow.Grammar.Reachability
import PegFlow.Grammar.References
import PegFlow.Grammar.Slots
import PegFlow.Grammar.TemplateCheck
import PegFlow.Grammar.Terminals
import PegFlow.Grammar.Traverse
import PegFlow.Grammar.Warning
import PegFlow.Json
import PegFlow.Json.Format
import PegFlow.Json.Numeral
import PegFlow.Json.Printer
import PegFlow.Json.Reader
import PegFlow.Json.Record
import PegFlow.Keyed
import PegFlow.Machine.Run
import PegFlow.Machine.State
import PegFlow.Machine.Step
import PegFlow.ParseError
import PegFlow.Parser
import PegFlow.Program
import PegFlow.Program.Op
import PegFlow.Proofs.Buffer.Flat
import PegFlow.Proofs.Buffer.Kept
import PegFlow.Proofs.Buffer.Lines
import PegFlow.Proofs.Buffer.Misaligned
import PegFlow.Proofs.Buffer.Place
import PegFlow.Proofs.Buffer.Reads
import PegFlow.Proofs.Buffer.Retained
import PegFlow.Proofs.CharClass.Notation
import PegFlow.Proofs.CharClass.Table
import PegFlow.Proofs.Format.Lawful
import PegFlow.Proofs.Grammar.Acceptable
import PegFlow.Proofs.Grammar.Annotations
import PegFlow.Proofs.Grammar.Arities
import PegFlow.Proofs.Grammar.Consistent
import PegFlow.Proofs.Grammar.Document
import PegFlow.Proofs.Grammar.Interned
import PegFlow.Proofs.Grammar.Labels
import PegFlow.Proofs.Grammar.LeftRecursion
import PegFlow.Proofs.Grammar.Linked
import PegFlow.Proofs.Grammar.Names
import PegFlow.Proofs.Grammar.Nullable
import PegFlow.Proofs.Grammar.Numbering
import PegFlow.Proofs.Grammar.Order
import PegFlow.Proofs.Grammar.Reachable
import PegFlow.Proofs.Grammar.Search
import PegFlow.Proofs.Grammar.Sites
import PegFlow.Proofs.Grammar.Slots
import PegFlow.Proofs.Grammar.Sure
import PegFlow.Proofs.Grammar.Traverse
import PegFlow.Proofs.Json.Format
import PegFlow.Proofs.Json.Text
import PegFlow.Proofs.Machine.Balanced
import PegFlow.Proofs.Machine.Call
import PegFlow.Proofs.Machine.Control
import PegFlow.Proofs.Machine.Copy
import PegFlow.Proofs.Machine.Course
import PegFlow.Proofs.Machine.Ends
import PegFlow.Proofs.Machine.Follow
import PegFlow.Proofs.Machine.Fragment
import PegFlow.Proofs.Machine.Furthest
import PegFlow.Proofs.Machine.Guard
import PegFlow.Proofs.Machine.LeftFold
import PegFlow.Proofs.Machine.Path
import PegFlow.Proofs.Machine.Raised
import PegFlow.Proofs.Machine.Recorded
import PegFlow.Proofs.Machine.Relocate
import PegFlow.Proofs.Machine.Rename
import PegFlow.Proofs.Machine.Results
import PegFlow.Proofs.Machine.Rounds
import PegFlow.Proofs.Machine.Rules
import PegFlow.Proofs.Machine.Seed
import PegFlow.Proofs.Machine.Settles
import PegFlow.Proofs.Machine.Shape
import PegFlow.Proofs.Machine.Sound
import PegFlow.Proofs.Machine.Stops
import PegFlow.Proofs.Machine.Sure
import PegFlow.Proofs.Machine.Tree
import PegFlow.Proofs.Machine.Tries
import PegFlow.Proofs.Machine.Visit
import PegFlow.Proofs.Machine.Window
import PegFlow.Proofs.Meaning.Agreement
import PegFlow.Proofs.Meaning.Alternatives
import PegFlow.Proofs.Meaning.Grammar
import PegFlow.Proofs.Meaning.Leading
import PegFlow.Proofs.Meaning.LeftFold
import PegFlow.Proofs.Meaning.Local
import PegFlow.Proofs.Meaning.Parse
import PegFlow.Proofs.Meaning.Slots
import PegFlow.Proofs.Meaning.Sure
import PegFlow.Proofs.Meaning.Tally
import PegFlow.Proofs.Meaning.Terminal
import PegFlow.Proofs.Meaning.Yields
import PegFlow.Proofs.Program.Closed
import PegFlow.Proofs.Program.Depth
import PegFlow.Proofs.Program.Layout
import PegFlow.Proofs.Program.Live
import PegFlow.Proofs.Program.Order
import PegFlow.Proofs.Program.Part
import PegFlow.Proofs.Program.Places
import PegFlow.Proofs.Program.Relocate
import PegFlow.Proofs.Program.Rename
import PegFlow.Proofs.Program.Results
import PegFlow.Proofs.Program.Shadowed
import PegFlow.Proofs.Stream.Advance
import PegFlow.Proofs.Stream.Agreement
import PegFlow.Proofs.Stream.Calls
import PegFlow.Proofs.Stream.Defaults
import PegFlow.Proofs.Stream.NoMatch
import PegFlow.Proofs.Stream.Order
import PegFlow.Proofs.Stream.Placed
import PegFlow.Proofs.Stream.Reachable
import PegFlow.Proofs.Stream.Reader
import PegFlow.Proofs.Stream.Rename
import PegFlow.Proofs.Stream.Safe
import PegFlow.Proofs.Stream.Suspended
import PegFlow.Proofs.Stream.Traced
import PegFlow.Proofs.Template.Checked
import PegFlow.Proofs.Template.Document
import PegFlow.Proofs.Template.Faults
import PegFlow.Proofs.Template.Grounded
import PegFlow.Proofs.Template.Parts
import PegFlow.Proofs.Template.Spread
import PegFlow.Proofs.Template.Window
import PegFlow.Proofs.Terminal.Faithful
import PegFlow.Proofs.Terminal.Interning
import PegFlow.Proofs.Text.Cut
import PegFlow.Proofs.Text.Line
import PegFlow.Proofs.Text.Position
import PegFlow.Proofs.Text.Utf8
import PegFlow.Proofs.Value.Document
import PegFlow.Proofs.Value.Format
import PegFlow.Proofs.Value.Keyed
import PegFlow.Proofs.Value.Pivot
import PegFlow.Reader
import PegFlow.Stream
import PegFlow.Template
import PegFlow.Template.Eval
import PegFlow.Template.Format
import PegFlow.Terminal
import PegFlow.Text.Octets
import PegFlow.Text.Position
import PegFlow.Text.Quoted
import PegFlow.Text.Unprintable
import PegFlow.Text.Utf8
import PegFlow.Value
import PegFlow.Value.Access
import PegFlow.Value.Format
import PegFlow.Value.Json
import PegFlow.Value.Pivot
import PegFlow.Value.Printer
import PegFlow.Value.Tree

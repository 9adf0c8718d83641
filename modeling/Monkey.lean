import Monkey.Bytes
import Monkey.CommandLine.Commands
import Monkey.CommandLine.Flags
import Monkey.CommandLine.Plan
import Monkey.CommandLine.Work
import Monkey.Evaluation.Action
import Monkey.Evaluation.Eval
import Monkey.Evaluation.Operator
import Monkey.Files
import Monkey.Grammar.Fault
import Monkey.Grammar.Level
import Monkey.Grammar.Parse
import Monkey.Grammar.Rule
import Monkey.Interpreter.Basic
import Monkey.Interpreter.Cache
import Monkey.Journal.Filter
import Monkey.Journal.Record
import Monkey.Journal.Severity
import Monkey.Main
import Monkey.Scope.Heap
import Monkey.Session.Basic
import Monkey.Session.Console
import Monkey.Session.History
import Monkey.Session.Input
import Monkey.Session.Interactive
import Monkey.Session.Lines
import Monkey.Settings.Basic
import Monkey.Settings.Load
import Monkey.Settings.Toml
import Monkey.Settings.Yaml
import Monkey.Text.Base64
import Monkey.Text.Blank
import Monkey.Text.Decimal
import Monkey.Text.Digits
import Monkey.Text.Double
import Monkey.Text.Invisible
import Monkey.Text.LowerCase
import Monkey.Text.Printable
import Monkey.Text.Quoted
import Monkey.Text.Rune
import Monkey.Text.Table
import Monkey.Token.Basic
import Monkey.Token.Scan
import Monkey.Token.Stream
import Monkey.Tree.Basic
import Monkey.Tree.Dump
import Monkey.Tree.Outline
import Monkey.Tree.Render
import Monkey.Tree.Walk
import Monkey.Value.Basic
import Monkey.Yaml.Cursor
import Monkey.Yaml.Label
import Monkey.Yaml.Meaning
import Monkey.Yaml.Moment
import Monkey.Yaml.Node
import Monkey.Yaml.Scalar
import Monkey.Yaml.Source
import Monkey.Yaml.Token.Basic
import Monkey.Yaml.Token.Stream
import Monkey.Proofs.Grammar.Derivation
import Monkey.Proofs.Grammar.Halting
import Monkey.Proofs.Grammar.Soundness
import Monkey.Proofs.Grammar.Completeness
import Monkey.Proofs.Grammar.Rendering
import Monkey.Proofs.Text.Decimal
import Monkey.Proofs.Token.Scanning
import Monkey.Proofs.Token.Joining
import Monkey.Proofs.Grammar.Printing
import Monkey.Proofs.Grammar.Wholeness
import Monkey.Proofs.Grammar.Parallel
import Monkey.Proofs.Grammar.Joining
import Monkey.Proofs.Grammar.Expectation
import Monkey.Proofs.Grammar.Foresight
import Monkey.Proofs.Grammar.FirstFault
import Monkey.Proofs.Grammar.OpenBlocks
import Monkey.Proofs.Grammar.Dropped
import Monkey.Proofs.Grammar.Progress
import Monkey.Proofs.Grammar.Tracing
import Monkey.Proofs.Grammar.SourceOrder
import Monkey.Proofs.Session.Depth
import Monkey.Proofs.Tree.Walking
import Monkey.Proofs.Tree.Children
import Monkey.Proofs.Tree.Listing
import Monkey.Proofs.Token.Tiling
import Monkey.Proofs.Token.Positions
import Monkey.Proofs.Token.Layout
import Monkey.Proofs.Scope.Matching
import Monkey.Proofs.Evaluation.Invariant
import Monkey.Proofs.Evaluation.Nesting
import Monkey.Proofs.Evaluation.Frame
import Monkey.Proofs.Evaluation.Simulation
import Monkey.Proofs.Scope.Reachable
import Monkey.Proofs.Evaluation.Repetition
import Monkey.Proofs.Evaluation.Checked
import Monkey.Proofs.Evaluation.Contract
import Monkey.Proofs.Evaluation.Watched
import Monkey.Proofs.Evaluation.Propagation
import Monkey.Proofs.Evaluation.Returns
import Monkey.Proofs.Evaluation.Places
import Monkey.Proofs.Evaluation.Joining
import Monkey.Proofs.Evaluation.Arithmetic
import Monkey.Proofs.Evaluation.Layout
import Monkey.Proofs.Interpreter.Session
import Monkey.Proofs.Interpreter.LexicalScope
import Monkey.Proofs.Interpreter.Transparency
import Monkey.Proofs.Interpreter.Verbosity
import Monkey.Proofs.Interpreter.Recency
import Monkey.Proofs.Scope.History
import Monkey.Proofs.Evaluation.Chronicle
import Monkey.Proofs.Interpreter.IntegerText
import Monkey.Proofs.Interpreter.Identity
import Monkey.Proofs.Files
import Monkey.Proofs.Session.Lines
import Monkey.Proofs.Session.Joining
import Monkey.Proofs.Session.Handling
import Monkey.Proofs.Session.Portions
import Monkey.Proofs.Session.Effect
import Monkey.Proofs.Session.Drivers
import Monkey.Proofs.Session.SavedHistory

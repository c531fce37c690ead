import Garnet.Calendar
import Garnet.Cbor.Decode
import Garnet.Cbor.Encode
import Garnet.Cbor.Item
import Garnet.Command.Execution
import Garnet.Command.Request
import Garnet.Evaluation.Basic
import Garnet.Evaluation.Dispatch
import Garnet.Evaluation.Node
import Garnet.Fault.Basic
import Garnet.Fault.Report
import Garnet.Files
import Garnet.Flags
import Garnet.Frame
import Garnet.Interpreter
import Garnet.Layout
import Garnet.Main
import Garnet.Number.Binary64
import Garnet.Number.Integer
import Garnet.Number.Shortest
import Garnet.Object.Basic
import Garnet.Object.World
import Garnet.Parse
import Garnet.Parse.Grammar
import Garnet.Parse.Issue
import Garnet.Parse.State
import Garnet.Path
import Garnet.Prompt.Basic
import Garnet.Prompt.Completion
import Garnet.Prompt.Key
import Garnet.Prompt.TextInput
import Garnet.Prompt.View
import Garnet.Proofs.Cbor.Canonical
import Garnet.Proofs.Cbor.Encoding
import Garnet.Proofs.Cbor.Reading
import Garnet.Proofs.Command.Formatting
import Garnet.Proofs.Evaluation.Agreement
import Garnet.Proofs.Evaluation.Changes
import Garnet.Proofs.Evaluation.Congruence
import Garnet.Proofs.Evaluation.Discipline
import Garnet.Proofs.Evaluation.Edits
import Garnet.Proofs.Evaluation.Erasure
import Garnet.Proofs.Evaluation.Frames
import Garnet.Proofs.Evaluation.Logic
import Garnet.Proofs.Evaluation.Wellformed
import Garnet.Proofs.Interpreter.Basic
import Garnet.Proofs.Interpreter.ClassStatements
import Garnet.Proofs.Interpreter.CodeFrames
import Garnet.Proofs.Interpreter.Definitions
import Garnet.Proofs.Interpreter.Increment
import Garnet.Proofs.Interpreter.Instances
import Garnet.Proofs.Interpreter.Isolation
import Garnet.Proofs.Interpreter.Limits
import Garnet.Proofs.Interpreter.Moments
import Garnet.Proofs.Interpreter.Naming
import Garnet.Proofs.Interpreter.Natives
import Garnet.Proofs.Interpreter.Occurring
import Garnet.Proofs.Interpreter.Origin
import Garnet.Proofs.Interpreter.Output
import Garnet.Proofs.Interpreter.Reachable
import Garnet.Proofs.Interpreter.Refusals
import Garnet.Proofs.Interpreter.Retention
import Garnet.Proofs.Interpreter.Runs
import Garnet.Proofs.Interpreter.Spelling
import Garnet.Proofs.Interpreter.Stack
import Garnet.Proofs.Interpreter.StackMachine
import Garnet.Proofs.Interpreter.Strings
import Garnet.Proofs.Interpreter.Termination
import Garnet.Proofs.Interpreter.Traces
import Garnet.Proofs.Interpreter.Values
import Garnet.Proofs.Layout.Meaning
import Garnet.Proofs.Layout.Normal
import Garnet.Proofs.Layout.Pieces
import Garnet.Proofs.Layout.Tokens
import Garnet.Proofs.Object.Change
import Garnet.Proofs.Object.Edits
import Garnet.Proofs.Object.Erasure
import Garnet.Proofs.Object.Graph
import Garnet.Proofs.Object.Naming
import Garnet.Proofs.Object.Resolution
import Garnet.Proofs.Object.World
import Garnet.Proofs.Parse.Completeness
import Garnet.Proofs.Parse.Constants
import Garnet.Proofs.Parse.Derivation
import Garnet.Proofs.Parse.Extent
import Garnet.Proofs.Parse.Formula
import Garnet.Proofs.Parse.Joining
import Garnet.Proofs.Parse.Layout
import Garnet.Proofs.Parse.Literals
import Garnet.Proofs.Parse.Names
import Garnet.Proofs.Parse.Operations
import Garnet.Proofs.Parse.Printing
import Garnet.Proofs.Parse.Respelling
import Garnet.Proofs.Parse.Scope
import Garnet.Proofs.Parse.Soundness
import Garnet.Proofs.Parse.Transport
import Garnet.Proofs.Parse.Words
import Garnet.Proofs.Prompt.Browsing
import Garnet.Proofs.Prompt.Completion
import Garnet.Proofs.Prompt.Session
import Garnet.Proofs.Prompt.TextInput
import Garnet.Proofs.Prompt.View
import Garnet.Proofs.Snapshot.Binary
import Garnet.Proofs.Snapshot.Canonical
import Garnet.Proofs.Source.Places
import Garnet.Proofs.Table
import Garnet.Proofs.Text.ByteOrder
import Garnet.Proofs.Text.Quoted
import Garnet.Proofs.Text.Words
import Garnet.Proofs.Token.Joining
import Garnet.Proofs.Token.Literals
import Garnet.Proofs.Token.Pieces
import Garnet.Proofs.Token.Reflow
import Garnet.Proofs.Token.Spelling
import Garnet.Proofs.Token.Tiling
import Garnet.Proofs.Tree.Constants
import Garnet.Proofs.Tree.Places
import Garnet.Proofs.Tree.Printer
import Garnet.Proofs.Tree.Scope
import Garnet.Proofs.Tree.Shape
import Garnet.Proofs.Tree.Words
import Garnet.Settings
import Garnet.Snapshot.Basic
import Garnet.Snapshot.Binary
import Garnet.Snapshot.Format
import Garnet.Snapshot.Text
import Garnet.Sorted
import Garnet.Source.CodeFrame
import Garnet.Source.Pos
import Garnet.Table
import Garnet.Text.Blank
import Garnet.Text.Digit
import Garnet.Text.Letter
import Garnet.Text.Lines
import Garnet.Text.Printable
import Garnet.Text.Quoted
import Garnet.Text.Ranges
import Garnet.Text.Trim
import Garnet.Text.Upper
import Garnet.Text.Utf8
import Garnet.Text.Words
import Garnet.Token.Basic
import Garnet.Token.Lexer
import Garnet.Toml
import Garnet.Toml.Document
import Garnet.Toml.Number
import Garnet.Toml.Reader
import Garnet.Toml.Value
import Garnet.Tree.Basic
import Garnet.Tree.Printer
import Garnet.Yaml.Block
import Garnet.Yaml.KeyOrder
import Garnet.Yaml.Scalar
import Garnet.Yaml.Timestamp

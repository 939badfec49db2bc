import TypeGraph.Command
import TypeGraph.Event
import TypeGraph.Flags
import TypeGraph.Graph
import TypeGraph.Graph.Build
import TypeGraph.Graph.Construct
import TypeGraph.Graph.Discriminated
import TypeGraph.Graph.Fresh
import TypeGraph.Graph.Union
import TypeGraph.Invocation
import TypeGraph.Json
import TypeGraph.Log.Directive
import TypeGraph.Log.Filter
import TypeGraph.Log.Line
import TypeGraph.Log.Pattern.Basic
import TypeGraph.Log.Pattern.CharSet
import TypeGraph.Log.Pattern.Escape
import TypeGraph.Log.Pattern.Reader
import TypeGraph.Main
import TypeGraph.Modifier
import TypeGraph.Node
import TypeGraph.Operation
import TypeGraph.Process
import TypeGraph.Proofs.Announcements
import TypeGraph.Proofs.ArrayLabels
import TypeGraph.Proofs.Atomicity
import TypeGraph.Proofs.ByteOrder
import TypeGraph.Proofs.Cycles
import TypeGraph.Proofs.Denotation
import TypeGraph.Proofs.Display
import TypeGraph.Proofs.Documents
import TypeGraph.Proofs.EventLog
import TypeGraph.Proofs.Flattening
import TypeGraph.Proofs.Grounding
import TypeGraph.Proofs.Growth
import TypeGraph.Proofs.Keys
import TypeGraph.Proofs.Labels
import TypeGraph.Proofs.LetterCase
import TypeGraph.Proofs.Lifecycle
import TypeGraph.Proofs.Matching
import TypeGraph.Proofs.MemberOrder
import TypeGraph.Proofs.Members
import TypeGraph.Proofs.ModifierObjects
import TypeGraph.Proofs.ObjectIdentity
import TypeGraph.Proofs.Offences
import TypeGraph.Proofs.PlainTypes
import TypeGraph.Proofs.Properties
import TypeGraph.Proofs.Quoting
import TypeGraph.Proofs.Rebuilding
import TypeGraph.Proofs.ReferenceGrammar
import TypeGraph.Proofs.ReferencePattern
import TypeGraph.Proofs.ResourceBodies
import TypeGraph.Proofs.ResourceCommand
import TypeGraph.Proofs.Run
import TypeGraph.Proofs.Selection
import TypeGraph.Proofs.SessionStep
import TypeGraph.Proofs.Sharing
import TypeGraph.Proofs.Stability
import TypeGraph.Proofs.StoredUnions
import TypeGraph.Proofs.StructuralIdentity
import TypeGraph.Proofs.Tokens
import TypeGraph.Proofs.TypeExpr
import TypeGraph.Proofs.UnionOutcome
import TypeGraph.Proofs.UnionTree
import TypeGraph.Proofs.Variants
import TypeGraph.Recipe
import TypeGraph.Refusal
import TypeGraph.Report
import TypeGraph.Resource.Body
import TypeGraph.Resource.Reference
import TypeGraph.Session
import TypeGraph.Text.Alphabetic
import TypeGraph.Text.Alphanumeric
import TypeGraph.Text.Blank
import TypeGraph.Text.Bytes
import TypeGraph.Text.DecimalDigit
import TypeGraph.Text.Fields
import TypeGraph.Text.Lines
import TypeGraph.Text.Numeral
import TypeGraph.Text.Numeric
import TypeGraph.Text.Quoted
import TypeGraph.Text.Ranges
import TypeGraph.Text.Regex
import TypeGraph.Vocabulary

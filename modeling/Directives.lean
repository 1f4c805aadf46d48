import Directives.Main
import Directives.Proofs.Draft.Program
import Directives.Proofs.Phase
import Directives.Proofs.Definition.Program
import Directives.Proofs.Draft.Trail
import Directives.Proofs.Definition.Policy
import Directives.Proofs.Draft.Collision
import Directives.Proofs.Definition.Include
import Directives.Proofs.Definition.Inline
import Directives.Proofs.Definition.Compile
import Directives.Proofs.Store.Marker
import Directives.Proofs.Store.Occurrence
import Directives.Proofs.Store.Resolve
import Directives.Proofs.Definition.Directive
import Directives.Proofs.Document.Block
import Directives.Proofs.Document.Layout
import Directives.Proofs.Draft.Journal
import Directives.Proofs.Definition.Unresolved
import Directives.Proofs.Store.Setters
import Directives.Proofs.Draft.Overwrite
import Directives.Proofs.Draft.Notice
import Directives.Proofs.Definition.Cycle
import Directives.Proofs.Draft.Moment
import Directives.Proofs.Definition.Frame
import Directives.Proofs.Session.Render
import Directives.Proofs.Session.Lint
import Directives.Proofs.Session.Verdict
import Directives.Proofs.FileTree.Write
import Directives.Proofs.Session.Delivery
import Directives.Proofs.Draft.Settled
import Directives.Proofs.Event.Line
import Directives.Proofs.Event.Log
import Directives.Proofs.Definition.Order
import Directives.Proofs.FileTree.Contents
import Directives.Proofs.Session.History
import Directives.Proofs.Registry.Indexed
import Directives.Proofs.Draft.Tally
import Directives.Proofs.Document.Shown
import Directives.Proofs.Document.Paragraph
import Directives.Proofs.Store.Table
import Directives.Proofs.Store.Spelling
import Directives.Proofs.Store.Alphabet
import Directives.Proofs.Phase.Outline
import Directives.Proofs.Definition.Entry
import Directives.Proofs.Document.Ending
import Directives.Proofs.Document.Parallel
import Directives.Proofs.Scan.Lines
import Directives.Proofs.Definition.Reachable
import Directives.Proofs.Definition.Declarations
import Directives.Proofs.Text.Lines
import Directives.Proofs.Event.Malformed
import Directives.Proofs.Json.Trailing
import Directives.Proofs.FileTree.Around
import Directives.Proofs.Event.Append
import Directives.Proofs.Glob.Accepted
import Directives.Proofs.Glob.Slashed
import Directives.Proofs.Scan.Documents
import Directives.Proofs.Scan.Validated
import Directives.Proofs.FileTree.WellFormed
import Directives.Proofs.FileTree.Below
import Directives.Proofs.FileTree.Visit
import Directives.Proofs.Scan.Directory
import Directives.Proofs.Definition.Decode

import BlockScript.CommandLine.FileTree
import BlockScript.Main
import BlockScript.Proofs.Text.Shift
import BlockScript.Proofs.Names.Fresh
import BlockScript.Proofs.Names.Coherence
import BlockScript.Proofs.Rendering.Structure
import BlockScript.Proofs.Rendering.Record
import BlockScript.Proofs.Rendering.Named
import BlockScript.Proofs.Rendering.Ensures
import BlockScript.Proofs.Template.Bodies
import BlockScript.Proofs.Template.Printing
import BlockScript.Proofs.Expression.Grammar
import BlockScript.Proofs.Expression.Parser
import BlockScript.Proofs.Expression.Lexer
import BlockScript.Proofs.Expression.Numeral
import BlockScript.Proofs.Expression.Printed
import BlockScript.Proofs.Expression.Meaning
import BlockScript.Proofs.Expression.Templates
import BlockScript.Proofs.Expression.Faithful
import BlockScript.Proofs.Generator.Recovery
import BlockScript.Proofs.Generator.Naming
import BlockScript.Proofs.Generator.Helpers
import BlockScript.Proofs.Generator.Imports
import BlockScript.Proofs.Generator.Literals
import BlockScript.Proofs.Workspace.ReadingOrder
import BlockScript.Proofs.Generator.Defined
import BlockScript.Proofs.Generator.Dependence
import BlockScript.Proofs.Generator.Policy
import BlockScript.Proofs.Number.WholeNumber
import BlockScript.Proofs.Number.Canonical
import BlockScript.Proofs.Number.Interval
import BlockScript.Proofs.Number.WholeText
import BlockScript.Proofs.Number.Nearest
import BlockScript.Proofs.Number.RoundTrip
import BlockScript.Proofs.Expression.Arithmetic
import BlockScript.Proofs.Expression.NumericLiteral
import BlockScript.Proofs.Workspace.Tables
import BlockScript.Proofs.Workspace.Saved
import BlockScript.Proofs.Workspace.SavedXml
import BlockScript.Proofs.Workspace.Agreement
import BlockScript.Proofs.Workspace.SavedJson
import BlockScript.Proofs.Workspace.SavedWorkspace
import BlockScript.Proofs.Names.Handlers
import BlockScript.Proofs.Names.FirstCome
import BlockScript.Proofs.Text.Mention
import BlockScript.Proofs.Text.Replacement
import BlockScript.Proofs.Text.Literal
import BlockScript.Proofs.Text.Rewording
import BlockScript.Proofs.Names.Provenance
import BlockScript.Proofs.Rendering.Contract
import BlockScript.Proofs.Template.Tidiness
import BlockScript.Proofs.Template.TidyExpressions
import BlockScript.Proofs.Template.TidyHelpers
import BlockScript.Proofs.Template.TidySequences
import BlockScript.Proofs.Template.TidyBlocks
import BlockScript.Proofs.Template.TidyStatements
import BlockScript.Proofs.Rendering.Runs
import BlockScript.Proofs.Template.Routines
import BlockScript.Proofs.Generator.Routines
import BlockScript.Proofs.Generator.Links
import BlockScript.Proofs.Rendering.Ends
import BlockScript.Proofs.Rendering.Chains
import BlockScript.Proofs.Template.Complaints
import BlockScript.Proofs.Generator.Culprits
import BlockScript.Proofs.Generator.Disabled
import BlockScript.Proofs.Generator.Variables
import BlockScript.Proofs.Rendering.Reach
import BlockScript.Proofs.Text.LineEnds
import BlockScript.Proofs.Template.Inputs
import BlockScript.Proofs.Rendering.Pieces
import BlockScript.Proofs.Rendering.LineEnds
import BlockScript.Proofs.Generator.Placeholders
import BlockScript.Proofs.Rendering.Filing
import BlockScript.Proofs.Rendering.Announcements
import BlockScript.Proofs.Rendering.Decisions
import BlockScript.Proofs.Workspace.Numbering
import BlockScript.Proofs.Workspace.Ids
import BlockScript.Proofs.Program.Layout
import BlockScript.Proofs.Program.Source
import BlockScript.Proofs.Program.Literals
import BlockScript.Proofs.Rendering.Pasting
import BlockScript.Proofs.Template.Collections
import BlockScript.Proofs.Template.Positions
import BlockScript.Proofs.Names.Allocator
import BlockScript.Proofs.Generator.Registry
import BlockScript.Proofs.Expression.Calls
import BlockScript.Proofs.Template.Slices
import BlockScript.Proofs.Rendering.Passing
import BlockScript.Proofs.Template.Passing
import BlockScript.Proofs.Generator.Widgets
import BlockScript.Proofs.Generator.Windows
import BlockScript.Proofs.Text.WholeLines
import BlockScript.Proofs.Rendering.Remarks
import BlockScript.Proofs.Generator.Padding
import BlockScript.Proofs.CommandLine.Hosts
import BlockScript.Proofs.CommandLine.Delivery
import BlockScript.Proofs.Text.Nesting
import BlockScript.Proofs.Json.Entries
import BlockScript.Proofs.Template.Closing
import BlockScript.Proofs.Template.ClosingSequences
import BlockScript.Proofs.Template.ClosingBlocks
import BlockScript.Proofs.Generator.Constructors
import BlockScript.Proofs.Generator.Messages
import BlockScript.Proofs.Text.MarkedLines
import BlockScript.Proofs.Generator.HelperLines
import BlockScript.Proofs.CommandLine.Requests
import BlockScript.Proofs.Rendering.Visits
import BlockScript.Proofs.Generator.Identifiers

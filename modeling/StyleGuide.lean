import StyleGuide.Main
import StyleGuide.Proofs.Path.Order
import StyleGuide.Proofs.FileSystem.Lookup
import StyleGuide.Proofs.FileSystem.Walk
import StyleGuide.Proofs.FileSystem.Fault
import StyleGuide.Proofs.Component.Expansion
import StyleGuide.Proofs.FileSystem.Change
import StyleGuide.Proofs.Text.Utf8
import StyleGuide.Proofs.Reference
import StyleGuide.Proofs.Resolution
import StyleGuide.Proofs.Props.Bracket
import StyleGuide.Proofs.Props.Member
import StyleGuide.Proofs.Props.Parts
import StyleGuide.Proofs.Props.TypeReader
import StyleGuide.Proofs.Props.Interface
import StyleGuide.Proofs.Compilation
import StyleGuide.Proofs.Sequence
import StyleGuide.Proofs.Path.Normal
import StyleGuide.Proofs.Config.BaseDirectory
import StyleGuide.Proofs.Markdown.Place
import StyleGuide.Proofs.Text.Slice
import StyleGuide.Proofs.Examples.Partition
import StyleGuide.Proofs.Markdown.TopLevel
import StyleGuide.Proofs.Examples.Writing
import StyleGuide.Proofs.Glob.Match
import StyleGuide.Proofs.Glob.Reader
import StyleGuide.Proofs.Glob.Segment
import StyleGuide.Proofs.Component.Alignment
import StyleGuide.Proofs.Component.Split
import StyleGuide.Proofs.FileSystem.LinkFree
import StyleGuide.Proofs.Glob.Prefix
import StyleGuide.Proofs.Component.Narrowing
import StyleGuide.Proofs.Component.Absolute
import StyleGuide.Proofs.Resolution.HandleFree
import StyleGuide.Proofs.Props.Handle
import StyleGuide.Proofs.Resolution.Twice
import StyleGuide.Proofs.Path.Rooted
import StyleGuide.Proofs.Compilation.Entries
import StyleGuide.Proofs.Component.Entry
import StyleGuide.Proofs.Component.Skipping
import StyleGuide.Proofs.Config.References
import StyleGuide.Proofs.FileSystem.Shape
import StyleGuide.Proofs.Compilation.Contents
import StyleGuide.Proofs.Compilation.Value
import StyleGuide.Proofs.Resolution.Parameters
import StyleGuide.Proofs.Path.Above
import StyleGuide.Proofs.FileSystem.Growth
import StyleGuide.Proofs.CommandLine.Request
import StyleGuide.Proofs.CommandLine.Failure
import StyleGuide.Proofs.CommandLine.Output
import StyleGuide.Proofs.Json.Everywhere
import StyleGuide.Proofs.Reference.Grammar
import StyleGuide.Proofs.Path.Text
import StyleGuide.Proofs.Reference.Image
import StyleGuide.Proofs.Props.Value
import StyleGuide.Proofs.Props.Lookup
import StyleGuide.Proofs.Json.Position
import StyleGuide.Proofs.Resolution.Outermost
import StyleGuide.Proofs.Props.TrailingComment
import StyleGuide.Proofs.Props.CommentLayout
import StyleGuide.Proofs.Props.LiteralUnion
import StyleGuide.Proofs.Props.LiteralMember
import StyleGuide.Proofs.Path.Canonical
import StyleGuide.Proofs.Glob.Acceptance
import StyleGuide.Proofs.Component.Refusal
import StyleGuide.Proofs.Props.MemberRows
import StyleGuide.Proofs.Props.Literal
import StyleGuide.Proofs.Props.Destructured
import StyleGuide.Proofs.Path.Relative
import StyleGuide.Proofs.Component.Settled
import StyleGuide.Proofs.Glob.Wildcard
import StyleGuide.Proofs.Component.Depth
import StyleGuide.Proofs.Props.Enclosed
import StyleGuide.Proofs.Props.WellFormed
import StyleGuide.Proofs.Props.Display
import StyleGuide.Proofs.Props.Separators
import StyleGuide.Proofs.Props.LeadingBar
import StyleGuide.Proofs.Props.Splitting
import StyleGuide.Proofs.Props.Grouping
import StyleGuide.Proofs.Props.Inside

import DocComments.Alias
import DocComments.Block
import DocComments.Block.Build
import DocComments.Builtin
import DocComments.Builtin.Descriptive
import DocComments.Builtin.Fields
import DocComments.Builtin.Location
import DocComments.Builtin.Markup
import DocComments.Builtin.Reference
import DocComments.Builtin.Signature
import DocComments.Callback
import DocComments.Collection
import DocComments.Command
import DocComments.CommandLine
import DocComments.Config
import DocComments.Config.Decode
import DocComments.Config.File
import DocComments.DataTree
import DocComments.Decimal
import DocComments.Diagnostic
import DocComments.Diagnostic.Snippet
import DocComments.Error
import DocComments.FileTree
import DocComments.Grammar
import DocComments.Grammar.Marker
import DocComments.HeadLine
import DocComments.Language
import DocComments.Line
import DocComments.Main
import DocComments.Parser
import DocComments.Path
import DocComments.RawPath
import DocComments.Registry
import DocComments.SourceFile
import DocComments.Style
import DocComments.Style.Resolve
import DocComments.Table
import DocComments.Tag
import DocComments.Tag.Split
import DocComments.Text.Cut
import DocComments.Text.Html
import DocComments.Text.Lines
import DocComments.Text.Quoted
import DocComments.Text.Space
import DocComments.Text.Unprintable
import DocComments.Text.Word
import DocComments.Timestamp
import DocComments.Token
import DocComments.Token.Scan
import DocComments.Value
import DocComments.Value.Draft
import DocComments.Value.Printer
import DocComments.Value.Reader
import DocComments.Yaml
import DocComments.Yaml.Cursor
import DocComments.Yaml.Node
import DocComments.Yaml.NodeTag
import DocComments.Yaml.Printer
import DocComments.Yaml.Reader
import DocComments.Yaml.Scalar
import DocComments.Yaml.Token
import DocComments.Yaml.Token.Lexer
import DocComments.Proofs.Table.Lookup
import DocComments.Proofs.Text.Cut
import DocComments.Proofs.Text.NormalForm
import DocComments.Proofs.Text.Lines
import DocComments.Proofs.Text.Html
import DocComments.Proofs.Text.Entities
import DocComments.Proofs.Text.Layout
import DocComments.Proofs.Grammar.Marker
import DocComments.Proofs.Grammar.Places
import DocComments.Proofs.Grammar.Overlap
import DocComments.Proofs.Grammar.Runs
import DocComments.Proofs.Token.Scan
import DocComments.Proofs.Token.Blocks
import DocComments.Proofs.Token.CodeSpan
import DocComments.Proofs.Token.CommentText
import DocComments.Proofs.Token.RoundTrip
import DocComments.Proofs.Token.Unclosed
import DocComments.Proofs.Token.Disjoint
import DocComments.Proofs.Token.HeaderScan
import DocComments.Proofs.Token.Shift
import DocComments.Proofs.Token.Local
import DocComments.Proofs.Diagnostic.Snippet
import DocComments.Proofs.Tag.Split
import DocComments.Proofs.Tag.Added
import DocComments.Proofs.Registry.Register
import DocComments.Proofs.Registry.Aliases
import DocComments.Proofs.Registry.Lookups
import DocComments.Proofs.Registry.Failures
import DocComments.Proofs.Registry.Order
import DocComments.Proofs.Style.Resolve
import DocComments.Proofs.Style.Listing
import DocComments.Proofs.Style.Chain
import DocComments.Proofs.Alias.Reading
import DocComments.Proofs.Alias.HeadLine
import DocComments.Proofs.Alias.Canonical
import DocComments.Proofs.Alias.Layout
import DocComments.Proofs.Alias.Stable
import DocComments.Proofs.Block.Phases
import DocComments.Proofs.Block.Run
import DocComments.Proofs.Block.Depth
import DocComments.Proofs.Block.Merge
import DocComments.Proofs.Block.Contents
import DocComments.Proofs.Block.Log
import DocComments.Proofs.Block.Plain
import DocComments.Proofs.Block.Blind
import DocComments.Proofs.Builtin.Blocks
import DocComments.Proofs.Builtin.Links
import DocComments.Proofs.Builtin.Occurrences
import DocComments.Proofs.Builtin.States
import DocComments.Proofs.Builtin.Reference
import DocComments.Proofs.Builtin.Linked
import DocComments.Proofs.Builtin.Spelling
import DocComments.Proofs.Builtin.Numbering
import DocComments.Proofs.HeadLine.Written
import DocComments.Proofs.Builtin.CodeBlind
import DocComments.Proofs.Parser.Quiet
import DocComments.Proofs.Parser.FailurePath
import DocComments.Proofs.Parser.WarningLine
import DocComments.Proofs.Parser.LineBreaks
import DocComments.Proofs.Collection.Independent

import LiveExcerpts.Text.Blank
import LiveExcerpts.Text.Split
import LiveExcerpts.Text.Slice
import LiveExcerpts.Bisect
import LiveExcerpts.Table
import LiveExcerpts.Path
import LiveExcerpts.Language
import LiveExcerpts.Node
import LiveExcerpts.Node.Rows
import LiveExcerpts.Token
import LiveExcerpts.Error
import LiveExcerpts.Diagnostic
import LiveExcerpts.SourceFile
import LiveExcerpts.Declaration
import LiveExcerpts.Excerpt
import LiveExcerpts.Segment
import LiveExcerpts.Segment.Reader
import LiveExcerpts.Command
import LiveExcerpts.Scenario
import LiveExcerpts.Settings
import LiveExcerpts.Settings.Toml
import LiveExcerpts.FileSystem
import LiveExcerpts.Location
import LiveExcerpts.Cache
import LiveExcerpts.Extractor
import LiveExcerpts.Page
import LiveExcerpts.Build
import LiveExcerpts.Markdown.Inline
import LiveExcerpts.Markdown
import LiveExcerpts.Settings.Load
import LiveExcerpts.Listing
import LiveExcerpts.Watch
import LiveExcerpts.TreeFile
import LiveExcerpts.CommandLine
import LiveExcerpts.Main
import LiveExcerpts.Proofs.Tokens.Partition
import LiveExcerpts.Proofs.Tokens.Lookup
import LiveExcerpts.Proofs.Tokens.Leaves
import LiveExcerpts.Proofs.Declarations
import LiveExcerpts.Proofs.Excerpts.Definition
import LiveExcerpts.Proofs.Excerpts.Signature
import LiveExcerpts.Proofs.Segments.Comments
import LiveExcerpts.Proofs.Segments.Split
import LiveExcerpts.Proofs.Outcomes
import LiveExcerpts.Proofs.Bindings
import LiveExcerpts.Proofs.Files.Walk
import LiveExcerpts.Proofs.Sharing
import LiveExcerpts.Proofs.Files.Writing
import LiveExcerpts.Proofs.Pages
import LiveExcerpts.Proofs.Files.Rooted
import LiveExcerpts.Proofs.Builds.AllOrNothing
import LiveExcerpts.Proofs.Files.Plain
import LiveExcerpts.Proofs.Paths
import LiveExcerpts.Proofs.Files.Directories
import LiveExcerpts.Proofs.Builds.Tasks
import LiveExcerpts.Proofs.Builds.Apart
import LiveExcerpts.Proofs.Builds.Paged
import LiveExcerpts.Proofs.Builds.Invariant
import LiveExcerpts.Proofs.Builds.Order
import LiveExcerpts.Proofs.Snippets
import LiveExcerpts.Proofs.Bodies
import LiveExcerpts.Proofs.Groups
import LiveExcerpts.Proofs.Segments.Placed
import LiveExcerpts.Proofs.Agreement
import LiveExcerpts.Proofs.Texts.Words
import LiveExcerpts.Proofs.Texts.Occurrences
import LiveExcerpts.Proofs.Commands
import LiveExcerpts.Proofs.Histories
import LiveExcerpts.Proofs.Texts.Lines
import LiveExcerpts.Proofs.Segments.Cleaning
import LiveExcerpts.Proofs.Segments.Documented
import LiveExcerpts.Proofs.Texts.Substitution
import LiveExcerpts.Proofs.Subpaths
import LiveExcerpts.Proofs.SourceRoot
import LiveExcerpts.Proofs.Excerpts.Range
import LiveExcerpts.Proofs.Tokens.Origins
import LiveExcerpts.Proofs.Placement
import LiveExcerpts.Proofs.Excerpts.Objects
import LiveExcerpts.Proofs.LineNumbers
import LiveExcerpts.Proofs.Segments.Shown
import LiveExcerpts.Proofs.Siblings
import LiveExcerpts.Proofs.Excerpts.Attributes
import LiveExcerpts.Proofs.HomeDirectory
import LiveExcerpts.Proofs.Segments.Fenced
import LiveExcerpts.Proofs.Requests
import LiveExcerpts.Proofs.Repetitions
import LiveExcerpts.Proofs.Spellings
import LiveExcerpts.Proofs.Texts.LineEnds
import LiveExcerpts.Proofs.ScenarioFiles
import LiveExcerpts.Proofs.Segments.Bytewise
import LiveExcerpts.Proofs.Segments.Lexers

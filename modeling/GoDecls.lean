import GoDecls.Arena.Basic
import GoDecls.Arena.File
import GoDecls.Arena.ReadBack
import GoDecls.Arena.Types
import GoDecls.Batch.Index
import GoDecls.Batch.Resolve
import GoDecls.Batch.Target
import GoDecls.CommandLine
import GoDecls.Comment.Basic
import GoDecls.Comment.Layout
import GoDecls.Comment.Text
import GoDecls.Diagnostic
import GoDecls.Files.Discover
import GoDecls.Files.Load
import GoDecls.Files.LoadError
import GoDecls.Files.Lookup
import GoDecls.Files.ModFile
import GoDecls.Files.Module
import GoDecls.Files.Name
import GoDecls.Files.Path
import GoDecls.Files.Tree
import GoDecls.Files.Update
import GoDecls.Interner
import GoDecls.Listing
import GoDecls.Literal.Digits
import GoDecls.Literal.Integer
import GoDecls.Literal.Quoted
import GoDecls.Main
import GoDecls.Model.Basic
import GoDecls.Model.Names
import GoDecls.Model.OfTree
import GoDecls.Model.References
import GoDecls.Model.Unit
import GoDecls.Span
import GoDecls.Tag.Basic
import GoDecls.Tag.Property
import GoDecls.Tag.Scan
import GoDecls.Tag.Reader
import GoDecls.Text.Blank
import GoDecls.Text.Bytes
import GoDecls.Text.Decode
import GoDecls.Text.Digit
import GoDecls.Text.Escaped
import GoDecls.Text.Letter
import GoDecls.Text.Lossy
import GoDecls.Text.Ranges
import GoDecls.Text.Shown
import GoDecls.Text.Uppercase
import GoDecls.Token.Basic
import GoDecls.Token.Lexer
import GoDecls.Token.Scan
import GoDecls.Tree.Basic
import GoDecls.Tree.Brackets
import GoDecls.Tree.Cursor
import GoDecls.Tree.Decls
import GoDecls.Tree.File
import GoDecls.Tree.Params
import GoDecls.Tree.Rename
import GoDecls.Tree.Types
import GoDecls.Proofs.Tree.Reading
import GoDecls.Proofs.Tree.Balance
import GoDecls.Proofs.Tree.Canonical
import GoDecls.Proofs.Tree.Entries
import GoDecls.Proofs.Tree.Lookahead
import GoDecls.Proofs.Tree.Loops
import GoDecls.Proofs.Tree.ReadTypes
import GoDecls.Proofs.Tree.ReadInterface
import GoDecls.Proofs.Tree.RoundTrip
import GoDecls.Proofs.Tree.TypeParams
import GoDecls.Indexed.Basic
import GoDecls.Indexed.Types
import GoDecls.Indexed.File
import GoDecls.Proofs.Indexed.Follows
import GoDecls.Proofs.Indexed.Types
import GoDecls.Proofs.Indexed.File
import GoDecls.Proofs.Indexed.Progress
import GoDecls.Proofs.Tree.ParamLists
import GoDecls.Proofs.Batch.FirstDeclared
import GoDecls.Proofs.Batch.PointsAt
import GoDecls.Proofs.Model.MapReferences
import GoDecls.Proofs.Batch.Places
import GoDecls.Proofs.Batch.Visits
import GoDecls.Proofs.Batch.Resolution
import GoDecls.Proofs.Batch.Incremental
import GoDecls.Proofs.Batch.Order
import GoDecls.Proofs.Batch.Relative
import GoDecls.Proofs.Token.LineEnds
import GoDecls.Proofs.Token.Pieces
import GoDecls.Proofs.Token.Semicolons
import GoDecls.Proofs.Token.Segments
import GoDecls.Proofs.Token.Quoted
import GoDecls.Proofs.Token.Beginnings
import GoDecls.Proofs.Token.Spacing
import GoDecls.Proofs.Token.Plain
import GoDecls.Proofs.Token.Comments
import GoDecls.Proofs.Token.Account
import GoDecls.Proofs.Token.Numbers
import GoDecls.Proofs.Token.Rendering
import GoDecls.Proofs.Token.Crlf
import GoDecls.Proofs.Token.CrlfRuns
import GoDecls.Proofs.Text.Decode
import GoDecls.Proofs.Text.Encode
import GoDecls.Proofs.Literal.Digits
import GoDecls.Proofs.Literal.Integer
import GoDecls.Proofs.Literal.Quoted
import GoDecls.Proofs.Comment.Lines
import GoDecls.Proofs.Comment.Groups
import GoDecls.Proofs.Comment.Text
import GoDecls.Proofs.Comment.Attached
import GoDecls.Proofs.Tree.Everywhere
import GoDecls.Proofs.Tree.Sound
import GoDecls.Proofs.Tree.SoundTypes
import GoDecls.Proofs.Tree.SoundFile
import GoDecls.Proofs.Tree.Outline
import GoDecls.Proofs.Tree.Placed
import GoDecls.Proofs.Tree.PlacedTypes
import GoDecls.Proofs.Tree.PlacedFile
import GoDecls.Proofs.Tree.Alike
import GoDecls.Proofs.Tree.AlikeFile
import GoDecls.Proofs.Tree.Echo
import GoDecls.Proofs.Tree.EchoTypes
import GoDecls.Proofs.Tree.EchoFile
import GoDecls.Proofs.Tree.Attached
import GoDecls.Proofs.Tree.Faults
import GoDecls.Proofs.Tree.FaultsTypes
import GoDecls.Proofs.Tree.FaultsFile
import GoDecls.Proofs.Arena.Growth
import GoDecls.Proofs.Arena.History
import GoDecls.Proofs.Arena.Kept
import GoDecls.Proofs.Arena.Stands
import GoDecls.Proofs.Arena.Builds
import GoDecls.Proofs.Arena.BuildTypes
import GoDecls.Proofs.Arena.BuildFile
import GoDecls.Proofs.Arena.Size
import GoDecls.Proofs.Arena.SizeFile
import GoDecls.Proofs.Arena.WellFormed
import GoDecls.Proofs.Model.Conversion
import GoDecls.Proofs.Model.Unbound
import GoDecls.Proofs.Model.Outcomes
import GoDecls.Proofs.Model.Supported
import GoDecls.Proofs.Model.Parens
import GoDecls.Proofs.Model.Regroup
import GoDecls.Proofs.Model.Interfaces
import GoDecls.Proofs.Model.Declared
import GoDecls.Proofs.Tag.Insertion
import GoDecls.Proofs.Tag.Pairs
import GoDecls.Proofs.Tag.Entries
import GoDecls.Proofs.Tag.Reader
import GoDecls.Proofs.Tag.Gathered
import GoDecls.Proofs.Model.DeclarationTags
import GoDecls.Proofs.Batch.Parameters
import GoDecls.Proofs.Tree.TypeNames
import GoDecls.Proofs.Tree.Cites
import GoDecls.Proofs.Tree.CitesTypes
import GoDecls.Proofs.Tree.CitesFile
import GoDecls.Proofs.Model.ReferenceOrder
import GoDecls.Proofs.Token.Lexemes
import GoDecls.Proofs.Token.Passage
import GoDecls.Proofs.Token.Parted
import GoDecls.Proofs.Token.Session
import GoDecls.Proofs.Token.Parenthesis
import GoDecls.Proofs.Tree.Enclose
import GoDecls.Proofs.Tree.EncloseFile
import GoDecls.Proofs.Tree.TypeEnds
import GoDecls.Proofs.Tree.EncloseReaders
import GoDecls.Proofs.Tree.EncloseTypes
import GoDecls.Proofs.Comment.Moved
import GoDecls.Proofs.Comment.Parenthesis
import GoDecls.Proofs.Tree.Enclosed
import GoDecls.Proofs.Tree.Rows
import GoDecls.Proofs.Tree.Grouped
import GoDecls.Proofs.Tree.Regroup
import GoDecls.Proofs.Tree.Spelled
import GoDecls.Proofs.Model.Alike
import GoDecls.Proofs.Listing.References
import GoDecls.Proofs.Files.Paths
import GoDecls.Proofs.Files.Locate
import GoDecls.Proofs.Files.Below
import GoDecls.Proofs.Files.Search
import GoDecls.Proofs.Comment.Beside
import GoDecls.Proofs.Model.SoleResults
import GoDecls.Proofs.Interner
import GoDecls.Proofs.Files.Discover

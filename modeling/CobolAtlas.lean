import CobolAtlas.Main
import CobolAtlas.Outline.Build
import CobolAtlas.Proofs.Calls.Resolution
import CobolAtlas.Proofs.Skeleton.RoundTrip
import CobolAtlas.Proofs.Program.Extents
import CobolAtlas.Proofs.Program.History
import CobolAtlas.Proofs.Source.Division
import CobolAtlas.Proofs.Source.Extents
import CobolAtlas.Proofs.Source.Insertion
import CobolAtlas.Proofs.Source.LetterCase
import CobolAtlas.Proofs.Source.Numbering
import CobolAtlas.Proofs.FileSystem.Lookup
import CobolAtlas.Proofs.FileSystem.Writes
import CobolAtlas.Proofs.Host
import CobolAtlas.Proofs.Json.RoundTrip
import CobolAtlas.Proofs.Program.Wire
import CobolAtlas.Proofs.Repository.Output
import CobolAtlas.Proofs.Source.LiteralContents
import CobolAtlas.Proofs.Syntax.Extents
import CobolAtlas.Proofs.Syntax.Transfers
import CobolAtlas.Proofs.Path.Parent
import CobolAtlas.Proofs.Path.Bytes
import CobolAtlas.Proofs.Syntax.Wrapping
import CobolAtlas.Proofs.Outline.Basic
import CobolAtlas.Proofs.Outline.Trail
import CobolAtlas.Proofs.Outline.Folders
import CobolAtlas.Proofs.Outline.Contents
import CobolAtlas.Proofs.Source.Blocks
import CobolAtlas.Proofs.Outline.Sections
import CobolAtlas.Proofs.Outline.Growth
import CobolAtlas.Proofs.Outline.Graft
import CobolAtlas.Proofs.Outline.Build
import CobolAtlas.Proofs.Calls.Files
import CobolAtlas.Proofs.Calls.Totals
import CobolAtlas.Proofs.Skeleton.SharedLine
import CobolAtlas.Proofs.Skeleton.Description
import CobolAtlas.Proofs.Source.StatementLayout
import CobolAtlas.Proofs.Source.StaticTarget
import CobolAtlas.Proofs.Source.MaskedItem
import CobolAtlas.Proofs.Program.Reach
import CobolAtlas.Proofs.Outline.Lines
import CobolAtlas.Proofs.Source.IdentificationArea
import CobolAtlas.Proofs.Source.SentenceVerb
import CobolAtlas.Proofs.Syntax.Renaming
import CobolAtlas.Proofs.Source.PictureClause
import CobolAtlas.Proofs.Repository.StructurePath
import CobolAtlas.Proofs.Repository.Walk
import CobolAtlas.Proofs.Grammar.Library
import CobolAtlas.Proofs.Outline.Finding
import CobolAtlas.Proofs.Syntax.Names
import CobolAtlas.Proofs.Source.Places
import CobolAtlas.Proofs.Syntax.Profile

import Redline.Access.Claims
import Redline.Access.Problem
import Redline.Access.Role
import Redline.Access.Token
import Redline.Access.Validation
import Redline.CommandLine.Arguments
import Redline.CommandLine.Run
import Redline.Desk.Counters
import Redline.Desk.Failure
import Redline.Desk.Overview
import Redline.Desk.Queue
import Redline.Desk.Schedule
import Redline.Desk.Store
import Redline.Desk.Work
import Redline.Digest.Hmac
import Redline.Digest.Sha512
import Redline.Entity.Basic
import Redline.Entity.Uuid
import Redline.Exchange.Document
import Redline.Exchange.Export
import Redline.Exchange.Import
import Redline.Exchange.Report
import Redline.Exchange.Segment
import Redline.Files.Tree
import Redline.Format.Address
import Redline.Format.Escape
import Redline.Format.Link
import Redline.Format.Pipeline
import Redline.Format.Sanitize
import Redline.Html.Fragment
import Redline.Html.Names
import Redline.Html.Reference
import Redline.Html.Token
import Redline.Html.Tree
import Redline.Http.Media
import Redline.Http.Message
import Redline.Http.Origin
import Redline.Http.Route
import Redline.Http.Service
import Redline.Json.Binary64
import Redline.Json.Outline
import Redline.Json.Shape
import Redline.Json.Text
import Redline.Json.Value
import Redline.Main
import Redline.Markup.Boundary
import Redline.Markup.Lexer
import Redline.Markup.Marker
import Redline.Markup.Strip
import Redline.Markup.Token
import Redline.Revision.Compact
import Redline.Revision.Compare
import Redline.Revision.Edit
import Redline.Revision.Snake
import Redline.Revision.Word
import Redline.Settings.Basic
import Redline.Settings.VariableFile
import Redline.Table
import Redline.Text.Base64Url
import Redline.Text.Blank
import Redline.Text.Decimal
import Redline.Text.Hidden
import Redline.Text.Quoted
import Redline.Text.Search
import Redline.Text.Unsigned
import Redline.Text.Utf8
import Redline.Usage.Embed
import Redline.Usage.Reference
import Redline.Usage.Registry
import Redline.Usage.WorkItem
import Redline.Proofs.DeletionRanges
import Redline.Proofs.Nesting
import Redline.Proofs.Finality
import Redline.Proofs.Interleavings
import Redline.Proofs.Linking
import Redline.Proofs.Patching
import Redline.Proofs.Highlighting
import Redline.Proofs.UsageTracking
import Redline.Proofs.Importing
import Redline.Proofs.Mirroring
import Redline.Proofs.Tokens
import Redline.Proofs.UsageRows
import Redline.Proofs.ItemAccounting
import Redline.Proofs.Settling
import Redline.Proofs.Fifo
import Redline.Proofs.Differences
import Redline.Proofs.Exclusion
import Redline.Proofs.Confinement
import Redline.Proofs.Acceptance
import Redline.Proofs.FailedEdits
import Redline.Proofs.PlainText
import Redline.Proofs.Snippets
import Redline.Proofs.Windows
import Redline.Proofs.NestedLinks
import Redline.Proofs.ReferenceCounts
import Redline.Proofs.Batches
import Redline.Proofs.Embeds
import Redline.Proofs.WrittenEmbeds
import Redline.Proofs.Relisting
import Redline.Proofs.Storages
import Redline.Proofs.Validation
import Redline.Proofs.Waits
import Redline.Proofs.Tallies
import Redline.Proofs.Origins
import Redline.Proofs.Triggers
import Redline.Proofs.Passages
import Redline.Proofs.Pairings
import Redline.Proofs.Operations
import Redline.Proofs.Cuttings

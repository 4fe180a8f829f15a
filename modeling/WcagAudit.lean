import WcagAudit.Config.Json
import WcagAudit.Main
import WcagAudit.Proofs.Command.Exit
import WcagAudit.Proofs.Comment
import WcagAudit.Proofs.Comment.Idempotence
import WcagAudit.Proofs.FileSystem.Changes
import WcagAudit.Proofs.FileSystem.Write
import WcagAudit.Proofs.Json.Numerals
import WcagAudit.Proofs.Json.RoundTrip
import WcagAudit.Proofs.Pattern.Reading
import WcagAudit.Proofs.Pattern.Search
import WcagAudit.Proofs.Pattern.Tag
import WcagAudit.Proofs.Report.LastLine
import WcagAudit.Proofs.Report.RoundTrip
import WcagAudit.Proofs.Report.Sarif
import WcagAudit.Proofs.Rule.Aggregate
import WcagAudit.Proofs.Rule.Comments
import WcagAudit.Proofs.Rule.Composition
import WcagAudit.Proofs.Rule.Conflicts
import WcagAudit.Proofs.Rule.Diagnostics
import WcagAudit.Proofs.Rule.Images
import WcagAudit.Proofs.Rule.Interactive
import WcagAudit.Proofs.Rule.Quoting
import WcagAudit.Proofs.Rule.Roles
import WcagAudit.Proofs.Scan.Coverage
import WcagAudit.Proofs.Scan.Lookup
import WcagAudit.Proofs.Scan.Pairing
import WcagAudit.Proofs.Scan.Selection
import WcagAudit.Proofs.Text.Spacing
import WcagAudit.Proofs.Pattern.NamedTags
import WcagAudit.Proofs.Rule.Elements
import WcagAudit.Proofs.Text.Occurrence
import WcagAudit.Proofs.Rule.SingleTag
import WcagAudit.Proofs.Rule.TagNames
import WcagAudit.Proofs.Rule.Attributes
import WcagAudit.Proofs.Rule.BareTags
import WcagAudit.Proofs.Rule.RequiredInputs
import WcagAudit.Proofs.Pattern.Description
import WcagAudit.Proofs.Color.Spelling
import WcagAudit.Proofs.Color.Conversion
import WcagAudit.Proofs.Color.Spacing
import WcagAudit.Proofs.Color.Contrast
import WcagAudit.Proofs.Pattern.Setting
import WcagAudit.Proofs.Rule.Relationships
import WcagAudit.Proofs.Scan.Level
import WcagAudit.Proofs.Text.Canonical
import WcagAudit.Proofs.Report.Text
import WcagAudit.Proofs.Config.Load
import WcagAudit.Proofs.Finding.Edits
import WcagAudit.Proofs.Pattern.Sites
import WcagAudit.Proofs.Rule.RoleSites

import ManifestLint.Main
import ManifestLint.Workbench
import ManifestLint.Glob.Expansion
import ManifestLint.Proofs.Engine.Verdict
import ManifestLint.Proofs.Check.AllOrNothing
import ManifestLint.Proofs.Yaml.Quoting
import ManifestLint.Proofs.Yaml.Flow
import ManifestLint.Proofs.Yaml.Lexemes
import ManifestLint.Proofs.Yaml.Scanning
import ManifestLint.Proofs.Yaml.Lines
import ManifestLint.Proofs.Yaml.Building
import ManifestLint.Proofs.Yaml.Records
import ManifestLint.Proofs.Config.Written
import ManifestLint.Proofs.Config.Conditions
import ManifestLint.Proofs.Config.RoundTrip
import ManifestLint.Proofs.Config.Writer
import ManifestLint.Proofs.Config.Layering
import ManifestLint.Proofs.Config.LoadFailure
import ManifestLint.Proofs.Check.Filtering
import ManifestLint.Proofs.Json.Reading
import ManifestLint.Proofs.Json.RoundTrip
import ManifestLint.Proofs.Json.Layout
import ManifestLint.Proofs.Report.Document
import ManifestLint.Proofs.Report.Summary
import ManifestLint.Proofs.Check.Status
import ManifestLint.Proofs.Workbench.Sessions
import ManifestLint.Proofs.CommandLine.Arrangement
import ManifestLint.Proofs.Glob.Describing
import ManifestLint.Proofs.FileTree.Paths
import ManifestLint.Proofs.Glob.Expanding
import ManifestLint.Proofs.Glob.Parts
import ManifestLint.Proofs.Glob.Sorting
import ManifestLint.Proofs.FileTree.Reordering
import ManifestLint.Proofs.Glob.Reordering
import ManifestLint.Proofs.Glob.Joining
import ManifestLint.Proofs.Glob.Arguments
import ManifestLint.Proofs.Glob.Counting
import ManifestLint.Proofs.Glob.Repeats
import ManifestLint.Proofs.Config.LineEndings
import ManifestLint.Proofs.Config.Frontmatter
import ManifestLint.Proofs.FileTree.Kinds
import ManifestLint.Proofs.Check.Dependence
import ManifestLint.Proofs.Check.Entries
import ManifestLint.Proofs.Manifest.Decoding
import ManifestLint.Proofs.Engine.Refusal
import ManifestLint.Proofs.Input.Resolution
import ManifestLint.Proofs.Check.Repeats
import ManifestLint.Proofs.Engine.Seams
import ManifestLint.Proofs.Engine.Ordering
import ManifestLint.Proofs.Text.Lines
import ManifestLint.Proofs.Report.Lines
import ManifestLint.Proofs.Report.LineCounts
import ManifestLint.Proofs.Colour.Codes
import ManifestLint.Proofs.Colour.Renderings
import ManifestLint.Proofs.Listing.Columns
import ManifestLint.Proofs.Glob.Located
import ManifestLint.Proofs.Input.Labels
import ManifestLint.Proofs.Number.Overflow
import ManifestLint.Proofs.Number.Literals
import ManifestLint.Proofs.Yaml.Resolution
import ManifestLint.Proofs.Yaml.Blocks
import ManifestLint.Proofs.Yaml.BlockScanning
import ManifestLint.Proofs.Yaml.BlockBuilding
import ManifestLint.Proofs.Config.PlainRule
import ManifestLint.Proofs.Yaml.Success
import ManifestLint.Proofs.Yaml.Anchors
import ManifestLint.Proofs.Yaml.EventCount
import ManifestLint.Proofs.Config.Roles
import ManifestLint.Proofs.Config.AliasFree
import ManifestLint.Proofs.Config.AliasFreeSettings
import ManifestLint.Proofs.Config.Padding
import ManifestLint.Proofs.Config.PaddedRecords
import ManifestLint.Proofs.Config.PaddedConditions
import ManifestLint.Proofs.Config.PaddedSettings
import ManifestLint.Proofs.Config.Differing
import ManifestLint.Proofs.Config.RepeatedKeys

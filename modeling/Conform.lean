import Conform.Log.Recorder
import Conform.Log.Template
import Conform.Main
import Conform.Proofs.Schema.References
import Conform.Proofs.Schema.Scan
import Conform.Schema.Batch
import Conform.Proofs.Double.Decimal
import Conform.Proofs.Double.Numeral
import Conform.Proofs.Json.Canonical
import Conform.Proofs.Schema.Content
import Conform.Proofs.Schema.Landing
import Conform.Proofs.Schema.Linked
import Conform.Proofs.Schema.Stripped
import Conform.Proofs.Schema.Schedule
import Conform.Proofs.Suite.Schedule
import Conform.Proofs.Glob
import Conform.Proofs.Mapping.Precedence
import Conform.Proofs.Schema.Containment
import Conform.Proofs.Schema.Racing
import Conform.Proofs.Schema.Provided
import Conform.Proofs.Mapping.Written
import Conform.Proofs.Mapping.Embedded
import Conform.Proofs.Signatures.Overlay
import Conform.Proofs.Schema.Gate
import Conform.Proofs.Signatures.Readings
import Conform.Proofs.Signatures.Merged
import Conform.Proofs.Signatures.Named
import Conform.Proofs.Signatures.ReadBack
import Conform.Proofs.Glob.Closed
import Conform.Proofs.Signatures.Detection
import Conform.Proofs.Signatures.Growth
import Conform.Proofs.Glob.Segment
import Conform.Proofs.Mapping.Covers
import Conform.Proofs.Suite.Overrides
import Conform.Proofs.Suite.Inversion
import Conform.Proofs.Suite.Verdict
import Conform.Proofs.Schema.Declarations
import Conform.Proofs.Schema.Skipping
import Conform.Proofs.Schema.Vetting
import Conform.Proofs.Schema.Report
import Conform.Proofs.Mapping.Contained
import Conform.Proofs.FileTree.Listing
import Conform.Proofs.Mapping.Tally
import Conform.Proofs.Suite.Repository
import Conform.Proofs.Yaml.Keys

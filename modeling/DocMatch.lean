import DocMatch.Main
import DocMatch.Proofs.Resolve.Composition
import DocMatch.Proofs.Resolve.Cycles
import DocMatch.Proofs.Resolve.Reach
import DocMatch.Proofs.Resolve.Selection
import DocMatch.Proofs.Resolve.Hoisting
import DocMatch.Proofs.Resolve.Emission
import DocMatch.Proofs.Interchange.Nesting
import DocMatch.Proofs.Number.Near
import DocMatch.Proofs.Interchange.Judgement
import DocMatch.Proofs.Expr.Beginning
import DocMatch.Proofs.Value.Walk
import DocMatch.Proofs.Expr.Tiling
import DocMatch.Proofs.Resolve.Machine
import DocMatch.Proofs.Value.Branch
import DocMatch.Proofs.Resolve.Bare
import DocMatch.Proofs.Resolve.Journal
import DocMatch.Proofs.Value.Assignment
import DocMatch.Proofs.Expr.Gaps
import DocMatch.Proofs.Yaml.Conversion
import DocMatch.Proofs.Number.ReadBack
import DocMatch.Proofs.Number.Steps
import DocMatch.Proofs.Json.Floats
import DocMatch.Proofs.Json.Documents
import DocMatch.Proofs.Json.Roundings
import DocMatch.Proofs.Json.Pieces
import DocMatch.Proofs.Yaml.Portable
import DocMatch.Proofs.Yaml.Words
import DocMatch.Proofs.Yaml.Reading
import DocMatch.Proofs.Yaml.Scanning
import DocMatch.Proofs.Yaml.Flow
import DocMatch.Proofs.Yaml.Trees
import DocMatch.Proofs.Yaml.Superset

import CacheRuns.Main
import CacheRuns.Proofs.Report.Precedence
import CacheRuns.Proofs.Log.FirstFailure
import CacheRuns.Proofs.Report.Image
import CacheRuns.Proofs.Report.Acceptance
import CacheRuns.Proofs.Number.Order
import CacheRuns.Proofs.Number.Difference
import CacheRuns.Proofs.Ranking
import CacheRuns.Proofs.Log.File
import CacheRuns.Proofs.Loading
import CacheRuns.Proofs.Disk.Folder
import CacheRuns.Proofs.Disk.Frame
import CacheRuns.Proofs.Number.Quotient
import CacheRuns.Proofs.Listing
import CacheRuns.Proofs.HitRatio.Outcomes
import CacheRuns.Proofs.HitRatio.Rerun
import CacheRuns.Proofs.Number.Alphabet
import CacheRuns.Proofs.Report.FieldFailure
import CacheRuns.Proofs.Report.SegmentFailure
import CacheRuns.Proofs.Report.CacheForms
import CacheRuns.Proofs.Report.Evidence
import CacheRuns.Proofs.Log.Concatenation
import CacheRuns.Proofs.Number.Nearest
import CacheRuns.Proofs.Log.Offsets
import CacheRuns.Proofs.Log.LineEndings
import CacheRuns.Proofs.Listing.Labels
import CacheRuns.Proofs.Listing.Search
import CacheRuns.Proofs.Summary
import CacheRuns.Proofs.Report.Metric
import CacheRuns.Proofs.Log.Series
import CacheRuns.Proofs.Plot.Truncation
import CacheRuns.Proofs.Plot.Checks
import CacheRuns.Proofs.Distribution
import CacheRuns.Proofs.Plot.Legend
import CacheRuns.Proofs.Plot.Range
import CacheRuns.Proofs.Plot.Agreement
import CacheRuns.Proofs.Report.Spacing
import CacheRuns.Proofs.Report.PolicyNames
import CacheRuns.Proofs.Report.Synonyms
import CacheRuns.Proofs.Log.Span
import CacheRuns.Proofs.Number.Overflow
import CacheRuns.Proofs.Report.TokenPlace
import CacheRuns.Proofs.Report.Counters

import LazyMatch.Client
import LazyMatch.Proofs.Session.ChangePoint
import LazyMatch.Proofs.Session.FailedChange
import LazyMatch.Result.Text
import LazyMatch.Scan.Dfa
import LazyMatch.Scan.TaggedDfa
import LazyMatch.Session
import LazyMatch.Tuning.Overrides
import LazyMatch.Proofs.Session.Counters
import LazyMatch.Proofs.Result.Resolution
import LazyMatch.Proofs.Result.Constancy
import LazyMatch.Proofs.Pending
import LazyMatch.Proofs.Result.Laziness
import LazyMatch.Proofs.Find.Laziness
import LazyMatch.Proofs.Result.Provision
import LazyMatch.Proofs.Result.Failure
import LazyMatch.Proofs.Find.Provision
import LazyMatch.Proofs.Scan.Dfa
import LazyMatch.Proofs.Scan.TaggedDfa
import LazyMatch.Proofs.Find.Range
import LazyMatch.Proofs.Find.Origin
import LazyMatch.Proofs.Find.Roles
import LazyMatch.Proofs.Find.Routes
import LazyMatch.Proofs.Find.Place
import LazyMatch.Proofs.Find.Leftmost
import LazyMatch.Proofs.Find.WholeMatch
import LazyMatch.Proofs.Scan.Visits
import LazyMatch.Proofs.Scan.Mirror
import LazyMatch.Proofs.Scan.Agreement
import LazyMatch.Proofs.Scan.Width
import LazyMatch.Proofs.Scan.Lookups
import LazyMatch.Proofs.Regex.Compilation
import LazyMatch.Proofs.Client.Calls
import LazyMatch.Proofs.Client.Simulation
import LazyMatch.Proofs.Find.KnownStart
import LazyMatch.Proofs.Template.Acceptance
import LazyMatch.Proofs.Template.Copying
import LazyMatch.Proofs.Usage.Shares
import LazyMatch.Proofs.Tuning.Overrides
import LazyMatch.Proofs.Table.Numbering

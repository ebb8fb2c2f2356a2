import SpiderDiagrams.Main
import SpiderDiagrams.Interchange.Reasoning
import SpiderDiagrams.Proofs.Addresses
import SpiderDiagrams.Proofs.Numbering
import SpiderDiagrams.Proofs.Substitution
import SpiderDiagrams.Proofs.Cursor
import SpiderDiagrams.Proofs.Walk
import SpiderDiagrams.Proofs.Recording
import SpiderDiagrams.Proofs.Rewriting
import SpiderDiagrams.Proofs.Elimination
import SpiderDiagrams.Proofs.NormalForm
import SpiderDiagrams.Proofs.Soundness
import SpiderDiagrams.Proofs.Replay
import SpiderDiagrams.Proofs.Coverage
import SpiderDiagrams.Proofs.Parts
import SpiderDiagrams.Proofs.Extending
import SpiderDiagrams.Proofs.Counting
import SpiderDiagrams.Proofs.Partition
import SpiderDiagrams.Proofs.Undoing
import SpiderDiagrams.Proofs.OneLine
import SpiderDiagrams.Proofs.Printing
import SpiderDiagrams.Proofs.StepGrammar
import SpiderDiagrams.Proofs.Quoting
import SpiderDiagrams.Proofs.Nesting
import SpiderDiagrams.Proofs.JsonText
import SpiderDiagrams.Proofs.Failing
import SpiderDiagrams.Proofs.RawDiagram
import SpiderDiagrams.Proofs.Building
import SpiderDiagrams.Proofs.Reading
import SpiderDiagrams.Proofs.RoundTrip
import SpiderDiagrams.Proofs.NestingBounds
import SpiderDiagrams.Proofs.Applying
import SpiderDiagrams.Proofs.Obtained
import SpiderDiagrams.Proofs.Renumbering
import SpiderDiagrams.Proofs.Commuting
import SpiderDiagrams.Proofs.Outcomes
import SpiderDiagrams.Proofs.Lifetime
import SpiderDiagrams.Proofs.FieldOrder
import SpiderDiagrams.Proofs.Rearranging
import SpiderDiagrams.Proofs.Bookkeeping
import SpiderDiagrams.Proofs.RecordedApplications
import SpiderDiagrams.Proofs.Registering
import SpiderDiagrams.Proofs.ByteOrder
import SpiderDiagrams.Proofs.ZoneOrder

import Timeline.Clause.Table
import Timeline.Calendar.PrimeYear
import Timeline.Scale.Edit
import Timeline.Scale.Query
import Timeline.Proofs.Calendar.Order
import Timeline.Proofs.Scale.Run
import Timeline.Proofs.Result
import Timeline.Proofs.Scale.Contiguity
import Timeline.Proofs.Scale.Scan
import Timeline.Proofs.Scale.Lookup
import Timeline.Proofs.Evaluation.Depth
import Timeline.Proofs.Evaluation.Rank
import Timeline.Proofs.Evaluation.Termination
import Timeline.Proofs.Expression.Legible
import Timeline.Proofs.Expression.Spaced
import Timeline.Proofs.Expression.Parser
import Timeline.Proofs.Expression.Spelling
import Timeline.Proofs.Expression.Reading
import Timeline.Proofs.Expression.RoundTrip
import Timeline.Proofs.Scale.Attachment
import Timeline.Proofs.Scale.Forest
import Timeline.Proofs.Scale.Grouping
import Timeline.Proofs.Scale.Numbering
import Timeline.Proofs.Evaluation.Lexical
import Timeline.Proofs.Expression.Layout
import Timeline.Proofs.Expression.Written
import Timeline.Proofs.Expression.Violation
import Timeline.Proofs.Expression.Diagnosis
import Timeline.Proofs.Clause.Splitting
import Timeline.Proofs.Scale.InPlace
import Timeline.Proofs.Scale.Thinning
import Timeline.Proofs.Scale.Restoration
import Timeline.Proofs.Clause.Sequence
import Timeline.Proofs.Clause.Isolation
import Timeline.Proofs.Clause.Registration
import Timeline.Proofs.Clause.Embedding
import Timeline.Proofs.Evaluation.CallFree
import Timeline.Proofs.Scale.PrimeDate
import Timeline.Proofs.Calendar.Elapsed
import Timeline.Proofs.Scale.Proportion
import Timeline.Proofs.Scale.Location
import Timeline.Proofs.Calendar.Months
import Timeline.Proofs.Scale.Boundaries
import Timeline.Proofs.Scale.Anchoring
import Timeline.Proofs.Scale.Descent
import Timeline.Proofs.Calendar.Range
import Timeline.Proofs.Scale.Independence
import Timeline.Proofs.Evaluation.Stops
import Timeline.Proofs.Clause.Delivery
import Timeline.Proofs.Scale.Moving
import Timeline.Proofs.Scale.Overriding
import Timeline.Proofs.Scale.Building
import Timeline.Proofs.Calendar.PrimeYear
import Timeline.Proofs.Text.Runs
import Timeline.Proofs.Number.Order
import Timeline.Proofs.Value.Equality
import Timeline.Proofs.Calendar.Exclusion
import Timeline.Proofs.Calendar.Padding
import Timeline.Proofs.Calendar.RoundTrip
import Timeline.Proofs.Scale.Display
import Timeline.Proofs.Number.Finite
import Timeline.Proofs.Scale.Documents
import Timeline.Proofs.Calendar.Midnight
import Timeline.Proofs.Scale.Length

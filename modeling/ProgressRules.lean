import ProgressRules.Main
import ProgressRules.Proofs.Formula.Meaning
import ProgressRules.Proofs.Normalization.Compilation
import ProgressRules.Proofs.Restoration.RoundTrip
import ProgressRules.Proofs.Conversion.Modes
import ProgressRules.Proofs.Condition.Printing
import ProgressRules.Proofs.Decomposition.Exactness
import ProgressRules.Proofs.Conversion.Warning
import ProgressRules.Proofs.Normalization.Idempotence
import ProgressRules.Proofs.Restoration.Canonical
import ProgressRules.Proofs.Formula.Fulfilment
import ProgressRules.Proofs.Conversion.Totality
import ProgressRules.Proofs.Diagnostics.Provenance
import ProgressRules.Proofs.Normalization.Paths
import ProgressRules.Proofs.Restoration.Marks
import ProgressRules.Proofs.Formula.Range
import ProgressRules.Proofs.Formula.Divisors
import ProgressRules.Proofs.Normalization.Order
import ProgressRules.Proofs.Diagnostics.Reporting
import ProgressRules.Proofs.Restoration.Rounding
import ProgressRules.Proofs.Consistency.Forced
import ProgressRules.Proofs.Normalization.Marking
import ProgressRules.Proofs.Document.Grammar
import ProgressRules.Proofs.Document.Numbers
import ProgressRules.Proofs.Document.Rendering
import ProgressRules.Proofs.CommandLine.Forward
import ProgressRules.Proofs.Catalog.Construction
import ProgressRules.Proofs.Catalog.Lookup
import ProgressRules.Proofs.Document.Mappings
import ProgressRules.Proofs.Document.Settings
import ProgressRules.Proofs.Condition.Spelling
import ProgressRules.Proofs.Binary64.Decimals
import ProgressRules.Proofs.Binary64.PlainText
import ProgressRules.Proofs.Formula.Untyped

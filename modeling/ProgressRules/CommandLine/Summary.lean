import ProgressRules.Completion
import ProgressRules.Conversion
import ProgressRules.Document.Json

/-! Conversions and completion items as documents. -/

namespace ProgressRules

namespace Summary

def entry (name : String) (value : Data) : Key × Data := (.text name.toList, value)

def ofComparison (c : Comparison) : Data :=
  .mapping [
    entry "reference" (.text c.reference),
    entry "operator" (.text c.operator.symbol),
    entry "threshold" (.real c.threshold),
    entry "threshold_text" (.text c.thresholdText)]

def ofDecomposition (d : Decomposition) : Data :=
  .mapping [
    entry "combinator" (.text (Conversion.combinatorName d.combinator)),
    entry "comparisons" (.list (d.comparisons.map ofComparison))]

def ofWitness (witness : List (Text × Binary64)) : Data :=
  .mapping (witness.map fun (reference, value) => (.text reference, .real value))

def ofConsistency (c : Consistency) : Data :=
  .mapping [
    entry "satisfiable" (.bool c.satisfiable),
    entry "witness" ((c.witness.map ofWitness).getD .null)]

def ofConversion (c : Conversion) : Data :=
  .mapping [
    entry "source" (.text c.source),
    entry "rule" (.text c.rule),
    entry "formula" (.text c.formula),
    entry "interpretation" (.text c.interpretation),
    entry "decomposed" (ofDecomposition c.decomposition),
    entry "warnings" (.list (c.warnings.map .text)),
    entry "consistency" ((c.consistency.map ofConsistency).getD .null),
    entry "convertible" (.bool c.convertible)]

def ofItem (item : Completion.Item) : Data :=
  .mapping [
    entry "label" (.text item.label),
    entry "kind" (.text item.kind.name),
    entry "insert_text" (.text item.insertText),
    entry "detail" (.text item.detail)]

def ofItems (items : List Completion.Item) : Data := .list (items.map ofItem)

end Summary

end ProgressRules

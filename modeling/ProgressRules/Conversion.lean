import ProgressRules.Condition.Parse
import ProgressRules.Consistency.Check
import ProgressRules.Formula
import ProgressRules.Gloss
import ProgressRules.Normalization

/-! The whole conversion of a source text: its rule, the percentage formula, the readable
interpretation, warnings, and on request the consistency check. -/

namespace ProgressRules

structure Conversion where
  source : Text
  rule : Text
  /-- Empty if the rule has no formula. -/
  formula : Text
  interpretation : Text
  decomposition : Decomposition
  warnings : List Text
  consistency : Option Consistency
deriving DecidableEq

inductive ConversionError where
  | template (error : TemplateError)
  | call (error : Formula.CallError)
  | consistency (error : ConsistencyError)
deriving DecidableEq

namespace Conversion

def convertible (c : Conversion) : Bool := !c.formula.isEmpty

/-- What an editor shows below the source: the formula, or else the rule. -/
def displayFormula (c : Conversion) : Text := if c.formula.isEmpty then c.rule else c.formula

def empty (source : Text) : Conversion := ⟨source, [], [], [], ⟨.none, []⟩, [], none⟩

def conditionOf (settings : Settings) (rule : Text) : Option Condition :=
  if settings.nested then Condition.ofRule? rule else none

def formulaOf (settings : Settings) (t : Option Condition) (d : Decomposition) :
    Except Formula.CallError (Option Formula) :=
  if settings.nested then Formula.ofCondition? settings.binaryCalls t
  else Formula.ofDecomposition settings.binaryCalls d

def comparisonsOf (settings : Settings) (t : Option Condition) (d : Decomposition) :
    List Comparison :=
  if settings.nested then (t.map Condition.comparisons).getD [] else d.comparisons

/-- A rule that was recognised in neither way is not checked. -/
def consistencyOf (settings : Settings) (t : Option Condition) (d : Decomposition) :
    Except ConsistencyError (Option Consistency) :=
  if settings.checkConsistency then
    match t with
    | some t => (Consistency.ofCondition t).map some
    | none => if d.failed then .ok none else (Consistency.ofDecomposition d).map some
  else .ok none

def unsatisfiable (c : Option Consistency) : Bool := c.any fun c => !c.satisfiable

def neverSatisfied : Text := "Condition can never be satisfied".toList

def lift {ε α : Type} (wrap : ε → ConversionError) : Except ε α → Except ConversionError α :=
  Except.mapError wrap

def ofRule (settings : Settings) (catalog : Catalog) (source rule : Text) :
    Except ConversionError Conversion := do
  let d := decompose rule
  let t := conditionOf settings rule
  let formula ← lift .call (formulaOf settings t d)
  let consistency ← lift .consistency (consistencyOf settings t d)
  return {
    source := source
    rule := rule
    formula := Formula.textOf settings.functionPrefix formula
    interpretation := interpret settings.separator source
    decomposition := d
    warnings := catalog.unknownReferences rule ++
      (if unsatisfiable consistency then [neverSatisfied] else [])
    consistency := consistency }

def combinatorName : Combinator → Text
  | .and => "and".toList
  | .or => "or".toList
  | .none => "none".toList

def summaryEntry (c : Conversion) : Log.Entry :=
  ⟨.debug, .pipeline, "Transpiled ".toList ++ Text.quoted c.source ++ ": combinator=".toList ++
    combinatorName c.decomposition.combinator ++ " comparisons=".toList ++
    Text.ofNat c.decomposition.comparisons.length ++ " formula=".toList ++
    (if c.convertible then "yes".toList else "no".toList)⟩

def log (settings : Settings) (catalog : Catalog) (c : Conversion) : List Log.Entry :=
  if Text.blankOnly c.source then []
  else
    (Decomposition.read c.rule).log ++
    Formula.log (comparisonsOf settings (conditionOf settings c.rule) c.decomposition) ++
    [summaryEntry c] ++
    (catalog.unknownReferences c.rule).map (⟨.warning, .pipeline, ·⟩) ++
    (if unsatisfiable c.consistency then
      [⟨.warning, .pipeline, neverSatisfied ++ ": ".toList ++ c.rule⟩] else [])

end Conversion

open Conversion in
def convert (settings : Settings) (catalog : Catalog) (source : Text) :
    Except ConversionError Conversion := do
  if Text.blankOnly source then return .empty source
  let rule ← lift .template (normalize catalog.toList source)
  ofRule settings catalog source rule

end ProgressRules

import ProgressRules.Binary64.Written
import ProgressRules.Condition.Basic
import ProgressRules.Decomposition
import ProgressRules.Settings

/-! Percentage formulas. A comparison makes progress in proportion to its threshold, up to
one hundred; a conjunction is as far as its least operand and a disjunction as its greatest.
A formula is built first, and its text is written from it. -/

namespace ProgressRules

inductive Extremum where
  | least
  | greatest
deriving DecidableEq, Repr

def Extremum.name : Extremum → Text
  | .least => "min".toList
  | .greatest => "max".toList

inductive Formula where
  /-- The percentage of the divisor that the variable has reached, at most one hundred. -/
  | progress (reference divisor : Text)
  /-- What is left up to one hundred. -/
  | complement (inner : Formula)
  | call (function : Extremum) (arguments : List Formula)

namespace Formula

/-! ### Text -/

def functionName (functionPrefix : Text) (function : Extremum) : Text :=
  functionPrefix ++ function.name

def application (function : Text) (arguments : List Text) : Text :=
  function ++ '(' :: Text.joinWith ", ".toList arguments ++ [')']

mutual

def text (functionPrefix : Text) : Formula → Text
  | .progress reference divisor =>
    application (functionName functionPrefix .least)
      ['#' :: reference ++ " * 100 / ".toList ++ divisor, "100".toList]
  | .complement inner => "(100 - ".toList ++ text functionPrefix inner ++ [')']
  | .call function arguments =>
    application (functionName functionPrefix function) (texts functionPrefix arguments)

def texts (functionPrefix : Text) : List Formula → List Text
  | [] => []
  | f :: fs => text functionPrefix f :: texts functionPrefix fs

end

/-! ### Formulas of conditions -/

inductive CallError where
  | noArguments
deriving DecidableEq, Repr

/-- One argument stands for itself. With binary calls more than two arguments are nested to
the left. -/
def combine {α : Type} (binaryCalls : Bool) (apply : List α → α) (arguments : List α) :
    Except CallError α :=
  match arguments with
  | [argument] => .ok argument
  | [] => if binaryCalls then .error .noArguments else .ok (apply [])
  | first :: others =>
    if binaryCalls then .ok (others.foldl (fun nested argument => apply [nested, argument]) first)
    else .ok (apply arguments)

def divisorOf (c : Comparison) : Text :=
  if c.thresholdText.isEmpty then c.threshold.plainText else c.thresholdText

/-- A threshold that is not above zero gives no scale. -/
def ofComparison? (c : Comparison) : Option Formula :=
  if c.threshold.nonpositive then none else some (.progress c.reference (divisorOf c))

mutual

/-- Operands are converted from left to right up to the first without a formula. -/
def ofCondition (binaryCalls : Bool) : Condition → Except CallError (Option Formula)
  | .comparison c => .ok (ofComparison? c)
  | .not child => do return (← ofCondition binaryCalls child).map .complement
  | .and children => do
    match ← ofConditions binaryCalls children with
    | some parts => return some (← combine binaryCalls (.call .least) parts)
    | none => return none
  | .or children => do
    match ← ofConditions binaryCalls children with
    | some parts => return some (← combine binaryCalls (.call .greatest) parts)
    | none => return none

def ofConditions (binaryCalls : Bool) : List Condition → Except CallError (Option (List Formula))
  | [] => .ok (some [])
  | child :: children => do
    match ← ofCondition binaryCalls child with
    | some part => return (← ofConditions binaryCalls children).map (part :: ·)
    | none => return none

end

def ofCondition? (binaryCalls : Bool) : Option Condition → Except CallError (Option Formula)
  | none => .ok none
  | some t => ofCondition binaryCalls t

def joinGroup (binaryCalls : Bool) : Combinator → List Formula → Except CallError (Option Formula)
  | .none, parts => .ok parts.head?
  | .and, parts => (combine binaryCalls (.call .least) parts).map some
  | .or, parts => (combine binaryCalls (.call .greatest) parts).map some

def ofDecomposition (binaryCalls : Bool) (d : Decomposition) : Except CallError (Option Formula) :=
  if d.failed then .ok none
  else
    match d.comparisons.mapM ofComparison? with
    | some parts => joinGroup binaryCalls d.combinator parts
    | none => .ok none

def textOf (functionPrefix : Text) (formula : Option Formula) : Text :=
  (formula.map (text functionPrefix)).getD []

def log (comparisons : List Comparison) : List Log.Entry :=
  ((comparisons.find? fun c => c.threshold.nonpositive).map fun c =>
    ⟨.debug, .formula,
      "No percentage formula for ".toList ++ c.reference ++ ' ' :: c.operator.symbol ++
        ' ' :: c.threshold.plainText ++ ": threshold must be positive".toList⟩).toList

end Formula

end ProgressRules

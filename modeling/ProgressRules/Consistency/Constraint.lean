import ProgressRules.Binary64.Shortest
import ProgressRules.Condition.Basic
import ProgressRules.Consistency.Literal

/-! Constraints, which are conditions on numbered unknowns without negation. A condition
becomes a constraint by reading each threshold as the decimal that is its shortest numeral,
by numbering the variables, and by moving negations down to the comparisons. -/

namespace ProgressRules

def Magnitude.shortestDecimal (m : Magnitude) : Rat :=
  if m.units = 0 then 0
  else mkRat (m.shortest.1 * Nat.pow 10 m.shortest.2 : Nat) Magnitude.gridPerOne

def Binary64.shortestDecimal? : Binary64 → Option Rat
  | .finite negative m => some (if negative then -m.shortestDecimal else m.shortestDecimal)
  | _ => none

def Operator.relation? : Operator → Option Relation
  | .ge => some .ge
  | .le => some .le
  | .gt => some .gt
  | .lt => some .lt
  | .eq => some .eq
  | .ne => some .ne
  | .other _ => none

inductive Constraint where
  | literal (literal : Literal)
  | all (parts : List Constraint)
  | any (parts : List Constraint)

inductive ConsistencyError where
  | unsupportedOperator (symbol : Text)
  | thresholdNotFinite
  /-- A part of the exact value of a witness is beyond the binary64 numbers. -/
  | witnessTooLarge
deriving DecidableEq, Repr

namespace Constraint

/-- The name of the variable behind a reference. A name ends where a null character stands. -/
def nameOf (reference : Text) : Text := reference.takeWhile (· != Char.ofNat 0)

/-- A variable has the number of its name among the given ones. -/
def ofComparison (names : List Text) (c : Comparison) : Except ConsistencyError Literal :=
  match c.operator.relation? with
  | none => .error (.unsupportedOperator c.operator.symbol)
  | some relation =>
    match c.threshold.shortestDecimal? with
    | none => .error .thresholdNotFinite
    | some value => .ok ⟨names.idxOf (nameOf c.reference), relation, value⟩

mutual

def ofCondition (names : List Text) (truth : Bool) :
    Condition → Except ConsistencyError Constraint
  | .comparison c => do
    let l ← ofComparison names c
    return .literal (if truth then l else l.opposite)
  | .not child => ofCondition names (!truth) child
  | .and children => do
    let parts ← ofConditions names truth children
    return if truth then .all parts else .any parts
  | .or children => do
    let parts ← ofConditions names truth children
    return if truth then .any parts else .all parts

def ofConditions (names : List Text) (truth : Bool) :
    List Condition → Except ConsistencyError (List Constraint)
  | [] => .ok []
  | child :: children => do
    return (← ofCondition names truth child) :: (← ofConditions names truth children)

end

mutual

def Holds (assignment : Nat → Rat) : Constraint → Prop
  | .literal l => l.Holds assignment
  | .all parts => AllHold assignment parts
  | .any parts => AnyHolds assignment parts

def AllHold (assignment : Nat → Rat) : List Constraint → Prop
  | [] => True
  | part :: parts => Holds assignment part ∧ AllHold assignment parts

def AnyHolds (assignment : Nat → Rat) : List Constraint → Prop
  | [] => False
  | part :: parts => Holds assignment part ∨ AnyHolds assignment parts

end

end Constraint

end ProgressRules

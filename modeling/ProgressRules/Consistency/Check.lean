import ProgressRules.Consistency.Search
import ProgressRules.Decomposition

/-! The consistency check: whether a condition can be met at all, and values that meet it. -/

namespace ProgressRules

structure Consistency where
  satisfiable : Bool
  /-- A value for each variable, in order of first appearance. -/
  witness : Option (List (Text × Binary64))
deriving DecidableEq

namespace Consistency

def part : Binary64 → Except ConsistencyError (Bool × Magnitude)
  | .finite sign m => .ok (sign, m)
  | _ => .error .witnessTooLarge

def integerNearest? (negative : Bool) (n : Nat) : Except ConsistencyError (Bool × Magnitude) :=
  part (.ofRatio negative n 1)

/-- The quotient of numerator and denominator, each rounded before the division. -/
def written (q : Rat) : Except ConsistencyError Binary64 := do
  let (sign, numerator) ← integerNearest? (q.num < 0) q.num.natAbs
  let (_, denominator) ← integerNearest? false q.den
  return .ofRatio sign numerator.units denominator.units

def referencesOf (comparisons : List Comparison) : List Text :=
  (comparisons.map Comparison.reference).eraseDups

def namesOf (references : List Text) : List Text := (references.map Constraint.nameOf).eraseDups

def ofConstraint (references names : List Text) (goal : Constraint) :
    Except ConsistencyError Consistency :=
  match goal.solve names.length with
  | .refuted _ => .ok ⟨false, none⟩
  | .solved box => do
    let witness ← references.mapM fun reference => do
      return (reference, ← written (box.value (names.idxOf (Constraint.nameOf reference))))
    return ⟨true, some witness⟩

/-- A rule that was not recognised counts as satisfiable, without a witness. -/
def unknown : Consistency := ⟨true, none⟩

/-- Every comparison of a conjunction has to hold, and one comparison of any other group. -/
def ofDecomposition (d : Decomposition) : Except ConsistencyError Consistency := do
  if d.failed then return unknown
  let references := referencesOf d.comparisons
  let names := namesOf references
  let literals ← d.comparisons.mapM (Constraint.ofComparison names)
  let parts := literals.map Constraint.literal
  ofConstraint references names
    (if d.combinator = .and || parts.length = 1 then .all parts else .any parts)

def ofCondition (t : Condition) : Except ConsistencyError Consistency := do
  let references := referencesOf t.comparisons
  let names := namesOf references
  ofConstraint references names (← Constraint.ofCondition names true t)

def ofCondition? : Option Condition → Except ConsistencyError Consistency
  | none => .ok unknown
  | some t => ofCondition t

end Consistency

end ProgressRules

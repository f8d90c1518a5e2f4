import ProgressRules.Comparison

/-! Nested conditions: comparisons joined by conjunction, disjunction and negation. -/

namespace ProgressRules

inductive Condition where
  | comparison (comparison : Comparison)
  | and (children : List Condition)
  | or (children : List Condition)
  | not (child : Condition)

namespace Condition

instance : Inhabited Condition where
  default := .and []

mutual

def comparisons : Condition → List Comparison
  | .comparison c => [c]
  | .and children => comparisonsOfAll children
  | .or children => comparisonsOfAll children
  | .not child => comparisons child

def comparisonsOfAll : List Condition → List Comparison
  | [] => []
  | child :: children => comparisons child ++ comparisonsOfAll children

end

/-- A conjunction has at least two operands; a single one stands for itself. -/
def conjunction : List Condition → Condition
  | [child] => child
  | children => .and children

def disjunction : List Condition → Condition
  | [child] => child
  | children => .or children

def negated : Nat → Condition → Condition
  | 0, t => t
  | n + 1, t => .not (negated n t)

end Condition

end ProgressRules

import ProgressRules.Formula
import ProgressRules.Proofs.Decomposition.Flat

/-! A recognised flat rule has the formula of the condition that it stands for. -/

namespace ProgressRules

namespace Formula

variable {binaryCalls : Bool} {ts : List Condition}

/-! ### Formulas of groups -/

/-- A group has a formula if all its operands have one. -/
def joinOperands (binaryCalls : Bool) (function : Extremum) :
    Option (List Formula) → Except CallError (Option Formula)
  | some parts => (combine binaryCalls (.call function) parts).map some
  | none => .ok none

theorem ofCondition_and {fs : Option (List Formula)} (h : ofConditions binaryCalls ts = .ok fs) :
    ofCondition binaryCalls (.and ts) = joinOperands binaryCalls .least fs := by
  rw [ofCondition, h]
  cases fs <;> rfl

theorem ofCondition_or {fs : Option (List Formula)} (h : ofConditions binaryCalls ts = .ok fs) :
    ofCondition binaryCalls (.or ts) = joinOperands binaryCalls .greatest fs := by
  rw [ofCondition, h]
  cases fs <;> rfl

theorem ofConditions_cons {t : Condition} {f : Option Formula} {fs : Option (List Formula)}
    (first : ofCondition binaryCalls t = .ok f) (others : ofConditions binaryCalls ts = .ok fs) :
    ofConditions binaryCalls (t :: ts) = .ok (f.bind fun part => fs.map (part :: ·)) := by
  rw [ofConditions, first, others]
  cases f <;> rfl

/-! ### Flat conditions -/

theorem ofConditions_comparisons (binaryCalls : Bool) (cs : List Comparison) :
    ofConditions binaryCalls (cs.map .comparison) = .ok (cs.mapM ofComparison?) := by
  induction cs with
  | nil => rfl
  | cons c cs ih =>
    rw [List.map_cons, ofConditions_cons (f := ofComparison? c) (by rw [ofCondition]) ih,
      List.mapM_cons]
    cases ofComparison? c <;> cases cs.mapM ofComparison? <;> rfl

theorem ofDecomposition_eq_ofCondition {d : Decomposition} {t : Condition} (h : d.StandsFor t)
    (binaryCalls : Bool) : ofDecomposition binaryCalls d = ofCondition binaryCalls t := by
  have recognised := h.recognised
  cases h with
  | single c =>
    rw [ofCondition, ofDecomposition]
    cases found : ofComparison? c <;> simp [Decomposition.failed, found, joinGroup]
  | all cs several =>
    rw [ofDecomposition, if_neg (by simp [recognised]),
      ofCondition_and (ofConditions_comparisons binaryCalls cs)]
    cases cs.mapM ofComparison? <;> rfl
  | any cs several =>
    rw [ofDecomposition, if_neg (by simp [recognised]),
      ofCondition_or (ofConditions_comparisons binaryCalls cs)]
    cases cs.mapM ofComparison? <;> rfl

end Formula

end ProgressRules

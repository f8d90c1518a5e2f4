import ProgressRules.Consistency.Check
import ProgressRules.Proofs.Decomposition.Flat

/-! A decomposition is checked like a condition: all comparisons of a conjunction, or one of any
other group. A recognised flat rule is checked like the condition that it stands for. -/

namespace ProgressRules

namespace Constraint

theorem ofCondition_comparison (names : List Text) (c : Comparison) :
    ofCondition names true (.comparison c) = (ofComparison names c).map .literal := by
  rw [ofCondition]
  cases ofComparison names c <;> rfl

theorem ofConditions_comparisons (names : List Text) (cs : List Comparison) :
    ofConditions names true (cs.map .comparison) =
      (cs.mapM (ofComparison names)).map (List.map .literal) := by
  induction cs with
  | nil => rfl
  | cons c cs ih =>
    rw [List.map_cons, ofConditions, ofCondition_comparison, ih, List.mapM_cons]
    cases ofComparison names c <;> cases cs.mapM (ofComparison names) <;> rfl

theorem ofCondition_and (names : List Text) (ts : List Condition) :
    ofCondition names true (.and ts) = (ofConditions names true ts).map .all := by
  rw [ofCondition]
  cases ofConditions names true ts <;> rfl

theorem ofCondition_or (names : List Text) (ts : List Condition) :
    ofCondition names true (.or ts) = (ofConditions names true ts).map .any := by
  rw [ofCondition]
  cases ofConditions names true ts <;> rfl

theorem solve_single (size : Nat) (l : Literal) :
    solve size (.all [.literal l]) = solve size (.literal l) := rfl

end Constraint

namespace Consistency

theorem ofConstraint_single (references names : List Text) (l : Literal) :
    ofConstraint references names (.all [.literal l]) =
      ofConstraint references names (.literal l) := by
  rw [ofConstraint, ofConstraint, Constraint.solve_single]

def groupOf (combinator : Combinator) (parts : List Constraint) : Constraint :=
  if combinator = .and || parts.length = 1 then .all parts else .any parts

def conditionOf (d : Decomposition) : Condition :=
  if d.combinator = .and ∨ d.comparisons.length = 1 then .and (d.comparisons.map .comparison)
  else .or (d.comparisons.map .comparison)

theorem comparisons_conditionOf (d : Decomposition) :
    (conditionOf d).comparisons = d.comparisons := by
  unfold conditionOf
  split <;> exact Decomposition.comparisonsOfAll_comparisons d.comparisons

theorem ofDecomposition_eq {d : Decomposition} {names : List Text} (recognised : d.failed = false)
    (same : namesOf (referencesOf d.comparisons) = names) :
    ofDecomposition d = (d.comparisons.mapM (Constraint.ofComparison names)).bind fun literals =>
      ofConstraint (referencesOf d.comparisons) names
        (groupOf d.combinator (literals.map .literal)) := by
  subst same
  rw [ofDecomposition, recognised]
  rfl

theorem ofCondition_eq {t : Condition} {references names : List Text}
    (referred : referencesOf t.comparisons = references) (named : namesOf references = names) :
    ofCondition t = (Constraint.ofCondition names true t).bind (ofConstraint references names) := by
  subst referred named
  rfl

theorem length_of_mapM {α β ε : Type} {f : α → Except ε β} {xs : List α} {ys : List β}
    (h : xs.mapM f = .ok ys) : ys.length = xs.length := by
  induction xs generalizing ys with
  | nil =>
    cases h
    rfl
  | cons x xs ih =>
    rw [List.mapM_cons] at h
    cases hx : f x with
    | error e => rw [hx] at h; cases h
    | ok y =>
      cases hxs : xs.mapM f with
      | error e => rw [hx, hxs] at h; cases h
      | ok zs =>
        rw [hx, hxs] at h
        cases h
        rw [List.length_cons, List.length_cons, ih hxs]

theorem ofCondition_conditionOf (names : List Text) (d : Decomposition) :
    Constraint.ofCondition names true (conditionOf d) =
      (d.comparisons.mapM (Constraint.ofComparison names)).map fun literals =>
        groupOf d.combinator (literals.map .literal) := by
  unfold conditionOf
  split
  case isTrue all =>
    rw [Constraint.ofCondition_and, Constraint.ofConditions_comparisons]
    cases found : d.comparisons.mapM (Constraint.ofComparison names) with
    | error e => rfl
    | ok literals =>
      have group : groupOf d.combinator (literals.map .literal) = .all (literals.map .literal) :=
        if_pos (by simpa [length_of_mapM found] using all)
      exact congrArg Except.ok group.symm
  case isFalse any =>
    rw [Constraint.ofCondition_or, Constraint.ofConditions_comparisons]
    cases found : d.comparisons.mapM (Constraint.ofComparison names) with
    | error e => rfl
    | ok literals =>
      have group : groupOf d.combinator (literals.map .literal) = .any (literals.map .literal) :=
        if_neg (by simpa [length_of_mapM found] using any)
      exact congrArg Except.ok group.symm

theorem ofDecomposition_eq_conditionOf {d : Decomposition} (recognised : d.failed = false) :
    ofDecomposition d = ofCondition (conditionOf d) := by
  rw [ofDecomposition_eq recognised rfl,
    ofCondition_eq (congrArg referencesOf (comparisons_conditionOf d)) rfl, ofCondition_conditionOf]
  cases d.comparisons.mapM (Constraint.ofComparison _) <;> rfl

theorem ofCondition_single (c : Comparison) :
    ofCondition (.and [.comparison c]) = ofCondition (.comparison c) := by
  have referred : referencesOf (Condition.comparisons (.and [.comparison c])) =
      referencesOf (Condition.comparisons (.comparison c)) := rfl
  rw [ofCondition_eq referred rfl, ofCondition_eq rfl rfl]
  generalize namesOf _ = names
  rw [Constraint.ofCondition_and, ← List.map_singleton, Constraint.ofConditions_comparisons,
    Constraint.ofCondition_comparison, List.mapM_cons, List.mapM_nil]
  cases Constraint.ofComparison names c with
  | error e => rfl
  | ok l => exact ofConstraint_single _ names l

theorem ofDecomposition_eq_ofCondition {d : Decomposition} {t : Condition} (h : d.StandsFor t) :
    ofDecomposition d = ofCondition t := by
  rw [ofDecomposition_eq_conditionOf h.recognised]
  cases h with
  | single c => exact ofCondition_single c
  | all cs several => exact congrArg ofCondition (if_pos (.inl rfl))
  | any cs several =>
    refine congrArg ofCondition (if_neg ?_)
    rintro (other | single)
    · cases other
    · simp only at single
      omega

end Consistency

end ProgressRules

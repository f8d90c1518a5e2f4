import ProgressRules.Decomposition
import ProgressRules.Proofs.Comparison.Reading
import ProgressRules.Proofs.Consistency.Search

/-! What conditions mean for real numbers, and that the constraint of a condition means the
same. Only the rational numbers that its thresholds can tell apart matter to a condition. -/

namespace ProgressRules

/-! ### Conditions on real numbers -/

def Operator.Relates (o : Operator) (x y : ℝ) : Prop :=
  match o with
  | .ge => y ≤ x
  | .le => x ≤ y
  | .gt => y < x
  | .lt => x < y
  | .eq => x = y
  | .ne => x ≠ y
  | .other _ => False

namespace Comparison

def Holds (threshold : Comparison → Rat) (v : Text → ℝ) (c : Comparison) : Prop :=
  c.operator.Relates (v c.reference) (threshold c)

def checkedThreshold (c : Comparison) : Rat := c.threshold.shortestDecimal?.getD 0

/-- One of the six operators, and a finite threshold. -/
def IsChecked (c : Comparison) : Prop := c.operator.Known ∧ c.threshold.isFinite = true

theorem IsChecked.shortestDecimal? {c : Comparison} (checked : c.IsChecked) :
    c.threshold.shortestDecimal? = some c.checkedThreshold := by
  have finite := checked.2
  rw [checkedThreshold]
  cases threshold : c.threshold with
  | finite negative m => rfl
  | infinite | nan =>
    rw [threshold] at finite
    cases finite

end Comparison

namespace Condition

mutual

def Holds (atom : Comparison → Prop) : Condition → Prop
  | .comparison c => atom c
  | .and children => AllHold atom children
  | .or children => AnyHolds atom children
  | .not child => ¬Holds atom child

def AllHold (atom : Comparison → Prop) : List Condition → Prop
  | [] => True
  | child :: children => Holds atom child ∧ AllHold atom children

def AnyHolds (atom : Comparison → Prop) : List Condition → Prop
  | [] => False
  | child :: children => Holds atom child ∨ AnyHolds atom children

end

end Condition

/-- The truth of a flat group: all comparisons of a conjunction hold, or one of any other. -/
def Decomposition.Holds (atom : Comparison → Prop) (d : Decomposition) : Prop :=
  if d.combinator = .and ∨ d.comparisons.length = 1 then ∀ c ∈ d.comparisons, atom c
  else ∃ c ∈ d.comparisons, atom c

namespace Condition

mutual

theorem holds_congr {atom other : Comparison → Prop} {t : Condition}
    (same : ∀ c ∈ t.comparisons, atom c ↔ other c) : t.Holds atom ↔ t.Holds other := by
  match t with
  | .comparison c => exact same c List.mem_cons_self
  | .and children => exact allHold_congr same
  | .or children => exact anyHolds_congr same
  | .not child => exact not_congr (holds_congr same)

theorem allHold_congr {atom other : Comparison → Prop} {ts : List Condition}
    (same : ∀ c ∈ comparisonsOfAll ts, atom c ↔ other c) : AllHold atom ts ↔ AllHold other ts := by
  match ts with
  | [] => exact Iff.rfl
  | t :: ts =>
    obtain ⟨first, others⟩ := List.forall_mem_append.1 same
    exact and_congr (holds_congr first) (allHold_congr others)

theorem anyHolds_congr {atom other : Comparison → Prop} {ts : List Condition}
    (same : ∀ c ∈ comparisonsOfAll ts, atom c ↔ other c) :
    AnyHolds atom ts ↔ AnyHolds other ts := by
  match ts with
  | [] => exact Iff.rfl
  | t :: ts =>
    obtain ⟨first, others⟩ := List.forall_mem_append.1 same
    exact or_congr (holds_congr first) (anyHolds_congr others)

end

theorem allHold_comparisons {atom : Comparison → Prop} {cs : List Comparison} :
    AllHold atom (cs.map .comparison) ↔ ∀ c ∈ cs, atom c := by
  induction cs with
  | nil => simp [AllHold]
  | cons c cs ih => rw [List.map_cons, AllHold, ih, List.forall_mem_cons]; rfl

theorem anyHolds_comparisons {atom : Comparison → Prop} {cs : List Comparison} :
    AnyHolds atom (cs.map .comparison) ↔ ∃ c ∈ cs, atom c := by
  induction cs with
  | nil => simp [AnyHolds]
  | cons c cs ih => simp [AnyHolds, ih, Holds]

end Condition

/-! ### Constraints -/

theorem Operator.exists_relation {o : Operator} (known : o.Known) :
    ∃ r, o.relation? = some r ∧ ∀ {x : ℝ} {sample value : Rat}, SameSide x sample value →
      (r.Holds sample value ↔ o.Relates x value) := by
  cases o with
  | other symbol => exact absurd rfl (known symbol)
  | ge => exact ⟨.ge, rfl, fun h => h.ge_iff.symm⟩
  | le => exact ⟨.le, rfl, fun h => h.le_iff.symm⟩
  | gt => exact ⟨.gt, rfl, fun h => h.2.symm⟩
  | lt => exact ⟨.lt, rfl, fun h => h.1.symm⟩
  | eq => exact ⟨.eq, rfl, fun h => h.eq_iff.symm⟩
  | ne => exact ⟨.ne, rfl, fun h => not_congr h.eq_iff.symm⟩

namespace Constraint

/-- The unknown of a reference lies on the same side of a threshold as the reference's value. -/
def Represents (names : List Text) (v : Text → ℝ) (a : Nat → Rat) (c : Comparison) : Prop :=
  SameSide (v (nameOf c.reference)) (a (names.idxOf (nameOf c.reference))) c.checkedThreshold

def HoldsByName (threshold : Comparison → Rat) (v : Text → ℝ) : Comparison → Prop :=
  Comparison.Holds threshold (v ∘ nameOf)

theorem ofComparison_exact {c : Comparison} (checked : c.IsChecked) (names : List Text) :
    ∃ l, ofComparison names c = .ok l ∧ l.unknown = names.idxOf (nameOf c.reference) ∧
      ∀ v a, Represents names v a c →
        (l.Holds a ↔ HoldsByName Comparison.checkedThreshold v c) := by
  obtain ⟨r, found, same⟩ := Operator.exists_relation checked.1
  refine ⟨⟨names.idxOf (nameOf c.reference), r, c.checkedThreshold⟩, ?_, rfl, fun v a h => same h⟩
  rw [ofComparison, found, checked.shortestDecimal?]

def HasTruth (atom : Comparison → Prop) (truth : Bool) (a : Nat → Rat) (goal : Constraint)
    (t : Condition) : Prop :=
  goal.Holds a ↔ (t.Holds atom ↔ truth = true)

/-- All parts are met where all conditions, or where none, hold; and the same for some part. -/
theorem hold_of_forall₂ {atom : Comparison → Prop} {truth : Bool} {a : Nat → Rat}
    {goals : List Constraint} {ts : List Condition}
    (each : List.Forall₂ (HasTruth atom truth a) goals ts) :
    (AllHold a goals ↔
      if truth then Condition.AllHold atom ts else ¬Condition.AnyHolds atom ts) ∧
    (AnyHolds a goals ↔
      if truth then Condition.AnyHolds atom ts else ¬Condition.AllHold atom ts) := by
  induction each with
  | nil => cases truth <;> simp [AllHold, AnyHolds, Condition.AllHold, Condition.AnyHolds]
  | cons first others ih =>
    rw [HasTruth] at first
    rw [AllHold, AnyHolds, ih.1, ih.2, first, Condition.AllHold, Condition.AnyHolds]
    cases truth
    · simp only [Bool.false_eq_true, iff_false, if_false]
      exact ⟨not_or.symm, not_and_or.symm⟩
    · simp only [iff_true, if_true, and_self]

mutual

theorem ofCondition_exact {names : List Text} (truth : Bool) {t : Condition}
    (named : ∀ c ∈ t.comparisons, c.IsChecked ∧ nameOf c.reference ∈ names) :
    ∃ goal, ofCondition names truth t = .ok goal ∧ goal.Below names.length ∧
      ∀ v a, (∀ c ∈ t.comparisons, Represents names v a c) →
        HasTruth (HoldsByName Comparison.checkedThreshold v) truth a goal t := by
  match t with
  | .comparison c =>
    obtain ⟨checked, member⟩ := named c List.mem_cons_self
    obtain ⟨l, found, unknown, same⟩ := ofComparison_exact checked names
    refine ⟨.literal (if truth then l else l.opposite), ?_, ?_, fun v a represents => ?_⟩
    · rw [ofCondition, found]
      rfl
    · have below : l.unknown < names.length := by
        rw [unknown]
        exact List.idxOf_lt_length_of_mem member
      cases truth <;> exact below
    · have atom := same v a (represents c List.mem_cons_self)
      cases truth
      · simp only [HasTruth, Holds, Condition.Holds, Bool.false_eq_true, if_false, iff_false,
          ← atom]
        exact Relation.holds_opposite _ _ _
      · simp only [HasTruth, Holds, Condition.Holds, if_true, iff_true, ← atom]
  | .not child =>
    have inside : ∀ c ∈ child.comparisons, c.IsChecked ∧ nameOf c.reference ∈ names := named
    obtain ⟨goal, found, below, same⟩ := ofCondition_exact (!truth) inside
    refine ⟨goal, by rw [ofCondition, found], below, fun v a represents => ?_⟩
    have child := same v a represents
    cases truth <;> simpa [HasTruth, Condition.Holds] using child
  | .and children =>
    obtain ⟨goals, found, below, same⟩ := ofConditions_exact truth named
    refine ⟨if truth then .all goals else .any goals, ?_, ?_, fun v a represents => ?_⟩
    · rw [ofCondition, found]
      rfl
    · cases truth <;> exact below
    · have hold := hold_of_forall₂ (same v a represents)
      cases truth
      · simpa [HasTruth, Holds, Condition.Holds] using hold.2
      · simpa [HasTruth, Holds, Condition.Holds] using hold.1
  | .or children =>
    obtain ⟨goals, found, below, same⟩ := ofConditions_exact truth named
    refine ⟨if truth then .any goals else .all goals, ?_, ?_, fun v a represents => ?_⟩
    · rw [ofCondition, found]
      rfl
    · cases truth <;> exact below
    · have hold := hold_of_forall₂ (same v a represents)
      cases truth
      · simpa [HasTruth, Holds, Condition.Holds] using hold.1
      · simpa [HasTruth, Holds, Condition.Holds] using hold.2

theorem ofConditions_exact {names : List Text} (truth : Bool) {ts : List Condition}
    (named : ∀ c ∈ Condition.comparisonsOfAll ts, c.IsChecked ∧ nameOf c.reference ∈ names) :
    ∃ goals, ofConditions names truth ts = .ok goals ∧ AllBelow names.length goals ∧
      ∀ v a, (∀ c ∈ Condition.comparisonsOfAll ts, Represents names v a c) →
        List.Forall₂ (HasTruth (HoldsByName Comparison.checkedThreshold v) truth a) goals ts := by
  match ts with
  | [] => exact ⟨[], rfl, trivial, fun _ _ _ => .nil⟩
  | t :: ts =>
    obtain ⟨first, others⟩ := List.forall_mem_append.1 named
    obtain ⟨goal, found, below, same⟩ := ofCondition_exact truth first
    obtain ⟨goals, found', below', same'⟩ := ofConditions_exact truth others
    refine ⟨goal :: goals, ?_, ⟨below, below'⟩, fun v a represents => ?_⟩
    · rw [ofConditions, found, found']
      rfl
    · obtain ⟨first, others⟩ := List.forall_mem_append.1 represents
      exact .cons (same v a first) (same' v a others)

end

end Constraint

end ProgressRules

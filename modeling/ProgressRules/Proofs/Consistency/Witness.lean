import Mathlib.Algebra.Order.Ring.Int
import Mathlib.Data.Rat.Lemmas
import ProgressRules.Proofs.Binary64.Rounding
import ProgressRules.Proofs.Consistency.Verdict

/-! Failures of the consistency check. A condition whose thresholds are not all finite has no
constraint. Otherwise the check fails only if a value of its witness cannot be written. All these
values are samples of the thresholds, so that they can be written where the thresholds are
fractions of moderate size. -/

namespace ProgressRules

/-! ### Fractions -/

def IsFraction (denominator bound : Nat) (q : Rat) : Prop :=
  ∃ numerator : Int, q = numerator / denominator ∧ numerator.natAbs ≤ bound

namespace IsFraction

variable {d b b' : Nat} {q r : Rat}

theorem zero (d b : Nat) : IsFraction d b 0 :=
  ⟨0, by simp, Nat.zero_le b⟩

theorem one (positive : 0 < d) (bound : d ≤ b) : IsFraction d b 1 := by
  have nonzero : (d : Rat) ≠ 0 := Nat.cast_ne_zero.2 positive.ne'
  exact ⟨d, by rw [Int.cast_natCast, div_self nonzero], by simpa using bound⟩

theorem of_div_le (positive : 0 < d) {digits limit : Nat} (le : (digits : Rat) / d ≤ limit) :
    IsFraction d (limit * d) (digits / d) := by
  refine ⟨digits, by rw [Int.cast_natCast], ?_⟩
  rw [div_le_iff₀ (Nat.cast_pos.2 positive)] at le
  rw [Int.natAbs_natCast]
  exact_mod_cast le

theorem mono (h : IsFraction d b q) (le : b ≤ b') : IsFraction d b' q := by
  obtain ⟨x, same, bound⟩ := h
  exact ⟨x, same, bound.trans le⟩

theorem mean (h : IsFraction d b q) (h' : IsFraction d b r) :
    IsFraction (2 * d) (2 * b) ((q + r) / 2) := by
  obtain ⟨x, rfl, bound⟩ := h
  obtain ⟨y, rfl, bound'⟩ := h'
  refine ⟨x + y, ?_, by omega⟩
  push_cast
  rw [← add_div, div_div, mul_comm (d : Rat) 2]

theorem expand (h : IsFraction d b q) : IsFraction (2 * d) (2 * b) q := by
  have same : (q + q) / 2 = q := add_self_div_two q
  exact same ▸ h.mean h

theorem shift (positive : 0 < d) (h : IsFraction d b q) {s : Int} (small : s.natAbs ≤ 1) :
    IsFraction d (b + d) (q + s) := by
  obtain ⟨x, rfl, bound⟩ := h
  have nonzero : (d : Rat) ≠ 0 := Nat.cast_ne_zero.2 positive.ne'
  refine ⟨x + s * d, ?_, ?_⟩
  · push_cast
    rw [add_div, mul_div_cancel_right₀ _ nonzero]
  · have step : (s * d).natAbs ≤ d := by
      rw [Int.natAbs_mul, Int.natAbs_natCast]
      exact (Nat.mul_le_mul_right d small).trans_eq (Nat.one_mul d)
    omega

end IsFraction

theorem mem_pointsAfter {values : List Rat} {x : Rat} (member : x ∈ pointsAfter values) :
    (∃ value ∈ values, x = value + 1) ∨
      ∃ value ∈ values, ∃ next ∈ values, x = (value + next) / 2 := by
  induction values with
  | nil => cases member
  | cons first values ih =>
    cases values with
    | nil => exact .inl ⟨first, by simp, List.mem_singleton.1 member⟩
    | cons second values =>
      rcases List.mem_cons.1 member with rfl | member
      · exact .inr ⟨first, by simp, second, by simp, rfl⟩
      · rcases ih member with ⟨value, inside, same⟩ | ⟨value, inside, next, inside', same⟩
        · exact .inl ⟨value, List.mem_cons_of_mem _ inside, same⟩
        · exact .inr ⟨value, List.mem_cons_of_mem _ inside, next, List.mem_cons_of_mem _ inside',
            same⟩

theorem isFraction_of_mem_samples {d b : Nat} (positive : 0 < d) {values : List Rat}
    (each : ∀ value ∈ values, IsFraction d b value) {x : Rat} (member : x ∈ samples values) :
    IsFraction (2 * d) (2 * (b + d)) x := by
  have widened : ∀ value ∈ values, ∀ s : Int, s.natAbs ≤ 1 →
      IsFraction (2 * d) (2 * (b + d)) (value + s) :=
    fun value inside s small => ((each value inside).shift positive small).expand
  have sorted : ∀ value ∈ values.eraseDups.mergeSort, value ∈ values := fun value inside =>
    List.mem_eraseDups.1 (List.mem_mergeSort.1 inside)
  rw [samples, List.mem_mergeSort] at member
  generalize values.eraseDups.mergeSort = ascending at sorted member
  simp only [List.mem_cons, List.mem_append] at member
  rcases member with rfl | (first | value) | after
  · exact .zero _ _
  · obtain ⟨value, least, rfl⟩ := List.mem_map.1 (Option.toList_map ▸ first)
    have inside := sorted value (List.mem_of_head? (Option.mem_toList.1 least))
    simpa [sub_eq_add_neg] using widened value inside (-1) (by decide)
  · simpa using widened x (sorted x value) 0 (by decide)
  · rcases mem_pointsAfter after with ⟨value, inside, rfl⟩ | ⟨value, inside, next, inside', rfl⟩
    · simpa using widened value (sorted value inside) 1 (by decide)
    · have middle := (each value (sorted value inside)).mean (each next (sorted next inside'))
      exact middle.mono (Nat.mul_le_mul_left 2 (Nat.le_add_right b d))

/-! ### Values that are compared -/

def Clause.Compares (P : Rat → Prop) (clause : Clause) : Prop := ∀ l ∈ clause, P l.value

namespace Constraint

mutual

def Compares (P : Rat → Prop) : Constraint → Prop
  | .literal l => P l.value
  | .all parts => AllCompare P parts
  | .any parts => AllCompare P parts

def AllCompare (P : Rat → Prop) : List Constraint → Prop
  | [] => True
  | part :: parts => Compares P part ∧ AllCompare P parts

end

variable {P : Rat → Prop}

mutual

theorem state_compares (one : P 1) {guard : Clause} (guarded : guard.Compares P) (next : Nat)
    {c : Constraint} (h : c.Compares P) :
    ∀ clause ∈ (state guard next c).clauses, clause.Compares P := by
  match c with
  | .literal l =>
    exact List.forall_mem_singleton.2
      (List.forall_mem_append.2 ⟨guarded, List.forall_mem_singleton.2 h⟩)
  | .all parts => exact stateAll_compares one guarded next h
  | .any parts =>
    obtain ⟨literals, others⟩ := List.forall_mem_cons.1 (stateAny_compares one next h)
    exact List.forall_mem_cons.2 ⟨List.forall_mem_append.2 ⟨guarded, literals⟩, others⟩

theorem stateAll_compares (one : P 1) {guard : Clause} (guarded : guard.Compares P) (next : Nat)
    {parts : List Constraint} (h : AllCompare P parts) :
    ∀ clause ∈ (stateAll guard next parts).clauses, clause.Compares P := by
  match parts with
  | [] => exact fun _ => nofun
  | part :: parts =>
    exact List.forall_mem_append.2
      ⟨state_compares one guarded next h.1, stateAll_compares one guarded _ h.2⟩

theorem stateAny_compares (one : P 1) (next : Nat) {parts : List Constraint}
    (h : AllCompare P parts) :
    ∀ clause ∈ (stateAny next parts).1 :: (stateAny next parts).2.clauses, clause.Compares P := by
  match parts with
  | [] => exact List.forall_mem_singleton.2 fun _ => nofun
  | part :: parts =>
    rcases part.literal_or_group with ⟨l, rfl⟩ | other
    · obtain ⟨literals, others⟩ := List.forall_mem_cons.1 (stateAny_compares one next h.2)
      rw [stateAny]
      exact List.forall_mem_cons.2 ⟨List.forall_mem_cons.2 ⟨h.1, literals⟩, others⟩
    · have guarded : Clause.Compares P [(Literal.chosen next).opposite] :=
        List.forall_mem_singleton.2 one
      have first := state_compares one guarded (next + 1) h.1
      obtain ⟨literals, others⟩ := List.forall_mem_cons.1 (stateAny_compares one _ h.2)
      rw [stateAny_cons other]
      exact List.forall_mem_cons.2
        ⟨List.forall_mem_cons.2 ⟨one, literals⟩, List.forall_mem_append.2 ⟨first, others⟩⟩

end

/-- The values that are found for unknowns are samples of the values that are compared. -/
theorem value_mem_samples (one : P 1) {goal : Constraint} (h : goal.Compares P) {size : Nat}
    (below : goal.Below size) {box : Box} (solved : goal.solve size = .solved box)
    {unknown : Nat} (bound : unknown < size) :
    ∃ values : List Rat, (∀ value ∈ values, P value) ∧ box.value unknown ∈ samples values := by
  have stated : (goal.state [] size).Expresses size fun a => Clause.Holds [] a ∨ goal.Holds a :=
    state_expresses (fun _ => nofun) below
  have unguarded : Clause.Compares P [] := fun _ => nofun
  have compares := state_compares one unguarded size h
  rw [solve] at solved
  generalize goal.state [] size = statement at stated compares solved
  have correct := solve_correct (.ofClauses statement.next statement.clauses) statement.clauses
  simp only [solved] at correct
  have sampled : (Box.ofClauses statement.next statement.clauses).values unknown =
      samples ((statement.clauses.flatten.filter (·.unknown == unknown)).map Literal.value) :=
    Box.values_ofClauses (bound.trans_le stated.le)
  have some : (Box.ofClauses statement.next statement.clauses).values unknown ≠ [] := by
    obtain ⟨sample, member, -⟩ := exists_sample _ 0
    rw [sampled]
    exact List.ne_nil_of_mem member
  refine ⟨_, fun value member => ?_, sampled ▸ correct.1.subset unknown
    (Box.value_mem_values (correct.1.nonempty unknown some))⟩
  obtain ⟨l, inside, rfl⟩ := List.mem_map.1 member
  obtain ⟨clause, stated, inside⟩ := List.mem_flatten.1 (List.mem_filter.1 inside).1
  exact compares clause stated l inside

end Constraint

/-! ### Written values -/

namespace Consistency

open Constraint (nameOf HoldsByName)

/-- An integer up to this power of ten has a finite number nearest to it. -/
def writtenLimit : Nat := Nat.pow 10 308

theorem exists_integerNearest? {n : Nat} (small : n ≤ writtenLimit) (negative : Bool) :
    ∃ m, integerNearest? negative n = .ok (negative, m) := by
  have most : roundUnits (writtenLimit * unitsPerOne) 1 < unitsLimit := by decide +kernel
  have below : roundUnits (n * unitsPerOne) 1 ≤ roundUnits (writtenLimit * unitsPerOne) 1 :=
    roundUnits_mono (by decide) (by decide)
      (Nat.mul_le_mul_right 1 (Nat.mul_le_mul_right unitsPerOne small))
  rw [integerNearest?, Binary64.ofRatio, dif_pos (below.trans_lt most)]
  exact ⟨_, rfl⟩

theorem exists_written {d b : Nat} {q : Rat} (positive : 0 < d) (small : d ≤ writtenLimit)
    (small' : b ≤ writtenLimit) (h : IsFraction d b q) : ∃ x, written q = .ok x := by
  obtain ⟨x, rfl, bound⟩ := h
  have quotient : (x : Rat) / d = Rat.divInt x d := by rw [Rat.divInt_eq_div, Int.cast_natCast]
  have nonzero : (d : Int) ≠ 0 := Int.natCast_ne_zero.2 positive.ne'
  rw [quotient]
  generalize found : Rat.divInt x d = q
  have numerator : q.num.natAbs ≤ writtenLimit := by
    rcases eq_or_ne x 0 with rfl | some
    · rw [← found, Rat.zero_divInt]
      exact Nat.zero_le _
    · have divides : q.num.natAbs ∣ x.natAbs := by
        rw [Int.natAbs_dvd_natAbs, ← found]
        exact Rat.num_dvd x nonzero
      exact (Nat.le_of_dvd (Int.natAbs_pos.2 some) divides).trans (bound.trans small')
  have denominator : q.den ≤ writtenLimit := by
    have divides : q.den ∣ d := by
      rw [← Int.natCast_dvd_natCast, ← found]
      exact Rat.den_dvd x d
    exact (Nat.le_of_dvd positive divides).trans small
  obtain ⟨m, above⟩ := exists_integerNearest? numerator (q.num < 0)
  obtain ⟨m', below⟩ := exists_integerNearest? denominator false
  rw [written, above, below]
  exact ⟨_, rfl⟩

theorem bind_eq_ok {ε α β : Type} {x : Except ε α} {f : α → Except ε β} {b : β}
    (h : x.bind f = .ok b) : ∃ a, x = .ok a ∧ f a = .ok b := by
  cases x with
  | error e => cases h
  | ok a => exact ⟨a, rfl, h⟩

theorem isChecked_of_ofComparison {names : List Text} {c : Comparison} {l : Literal}
    (found : Constraint.ofComparison names c = .ok l) : c.IsChecked := by
  unfold Constraint.ofComparison at found
  split at found
  · cases found
  · rename_i relation known
    split at found
    · cases found
    · rename_i value finite
      refine ⟨fun symbol same => ?_, ?_⟩
      · rw [same] at known
        cases known
      · cases same : c.threshold with
        | finite => rfl
        | infinite | nan =>
          rw [same] at finite
          cases finite

mutual

theorem isChecked_of_ofCondition {names : List Text} {truth : Bool} {t : Condition}
    {goal : Constraint} (found : Constraint.ofCondition names truth t = .ok goal) :
    ∀ c ∈ t.comparisons, c.IsChecked := by
  match t with
  | .comparison c =>
    rw [Constraint.ofCondition] at found
    obtain ⟨l, found, -⟩ := bind_eq_ok found
    exact List.forall_mem_singleton.2 (isChecked_of_ofComparison found)
  | .not child =>
    rw [Constraint.ofCondition] at found
    have inside : ∀ c ∈ child.comparisons, c.IsChecked := isChecked_of_ofCondition found
    exact inside
  | .and children | .or children =>
    rw [Constraint.ofCondition] at found
    obtain ⟨parts, found, -⟩ := bind_eq_ok found
    have inside : ∀ c ∈ Condition.comparisonsOfAll children, c.IsChecked :=
      isChecked_of_ofConditions found
    exact inside

theorem isChecked_of_ofConditions {names : List Text} {truth : Bool} {ts : List Condition}
    {goals : List Constraint} (found : Constraint.ofConditions names truth ts = .ok goals) :
    ∀ c ∈ Condition.comparisonsOfAll ts, c.IsChecked := by
  match ts with
  | [] => exact fun _ => nofun
  | t :: ts =>
    rw [Constraint.ofConditions] at found
    obtain ⟨goal, first, rest⟩ := bind_eq_ok found
    obtain ⟨goals, others, -⟩ := bind_eq_ok rest
    exact List.forall_mem_append.2
      ⟨isChecked_of_ofCondition first, isChecked_of_ofConditions others⟩

end

theorem value_of_ofComparison {names : List Text} {c : Comparison} {l : Literal}
    (found : Constraint.ofComparison names c = .ok l) : l.value = c.checkedThreshold := by
  unfold Constraint.ofComparison at found
  split at found
  · cases found
  · split at found
    · cases found
    · rename_i value finite
      cases found
      rw [Comparison.checkedThreshold, finite, Option.getD_some]

mutual

theorem compares_of_ofCondition {P : Rat → Prop} {names : List Text} {truth : Bool}
    {t : Condition} {goal : Constraint} (each : ∀ c ∈ t.comparisons, P c.checkedThreshold)
    (found : Constraint.ofCondition names truth t = .ok goal) : goal.Compares P := by
  match t with
  | .comparison c =>
    rw [Constraint.ofCondition] at found
    obtain ⟨l, stated, same⟩ := bind_eq_ok found
    cases same
    have value : P l.value := value_of_ofComparison stated ▸ each c List.mem_cons_self
    cases truth <;> exact value
  | .not child =>
    rw [Constraint.ofCondition] at found
    have inside : ∀ c ∈ child.comparisons, P c.checkedThreshold := each
    exact compares_of_ofCondition inside found
  | .and children | .or children =>
    rw [Constraint.ofCondition] at found
    obtain ⟨parts, stated, same⟩ := bind_eq_ok found
    cases same
    have inside : Constraint.AllCompare P parts := compares_of_ofConditions each stated
    cases truth <;> exact inside

theorem compares_of_ofConditions {P : Rat → Prop} {names : List Text} {truth : Bool}
    {ts : List Condition} {goals : List Constraint}
    (each : ∀ c ∈ Condition.comparisonsOfAll ts, P c.checkedThreshold)
    (found : Constraint.ofConditions names truth ts = .ok goals) :
    Constraint.AllCompare P goals := by
  match ts with
  | [] =>
    cases found
    trivial
  | t :: ts =>
    rw [Constraint.ofConditions] at found
    obtain ⟨first, others⟩ := List.forall_mem_append.1 each
    obtain ⟨goal, stated, rest⟩ := bind_eq_ok found
    obtain ⟨goals, stated', same⟩ := bind_eq_ok rest
    cases same
    exact ⟨compares_of_ofCondition first stated, compares_of_ofConditions others stated'⟩

end

/-! ### Errors -/

theorem bind_eq_error {ε α β : Type} {x : Except ε α} {f : α → Except ε β} {e : ε}
    (h : x.bind f = .error e) : x = .error e ∨ ∃ a, f a = .error e := by
  cases x with
  | error cause =>
    cases h
    exact .inl rfl
  | ok a => exact .inr ⟨a, h⟩

mutual

/-- Of the six operators, only a threshold that is not finite keeps a condition from having a
constraint. -/
theorem eq_notFinite_of_ofCondition {names : List Text} {truth : Bool} {t : Condition}
    {e : ConsistencyError} (known : ∀ c ∈ t.comparisons, c.operator.Known)
    (failed : Constraint.ofCondition names truth t = .error e) : e = .thresholdNotFinite := by
  match t with
  | .comparison c =>
    rw [Constraint.ofCondition] at failed
    have failed := (bind_eq_error failed).resolve_right nofun
    obtain ⟨relation, found, -⟩ := Operator.exists_relation (known c List.mem_cons_self)
    rw [Constraint.ofComparison, found] at failed
    cases finite : c.threshold.shortestDecimal? with
    | none =>
      rw [finite] at failed
      cases failed
      rfl
    | some value =>
      rw [finite] at failed
      cases failed
  | .not child =>
    rw [Constraint.ofCondition] at failed
    have inside : ∀ c ∈ child.comparisons, c.operator.Known := known
    exact eq_notFinite_of_ofCondition inside failed
  | .and children | .or children =>
    rw [Constraint.ofCondition] at failed
    exact eq_notFinite_of_ofConditions known ((bind_eq_error failed).resolve_right nofun)

theorem eq_notFinite_of_ofConditions {names : List Text} {truth : Bool} {ts : List Condition}
    {e : ConsistencyError} (known : ∀ c ∈ Condition.comparisonsOfAll ts, c.operator.Known)
    (failed : Constraint.ofConditions names truth ts = .error e) : e = .thresholdNotFinite := by
  match ts with
  | [] => cases failed
  | t :: ts =>
    rw [Constraint.ofConditions] at failed
    obtain ⟨first, others⟩ := List.forall_mem_append.1 known
    rcases bind_eq_error failed with failed | ⟨goal, failed⟩
    · exact eq_notFinite_of_ofCondition first failed
    · exact eq_notFinite_of_ofConditions others ((bind_eq_error failed).resolve_right nofun)

end

theorem ofCondition_notFinite {t : Condition} (known : ∀ c ∈ t.comparisons, c.operator.Known)
    (infinite : ∃ c ∈ t.comparisons, c.threshold.isFinite = false) :
    ofCondition t = .error .thresholdNotFinite := by
  rw [ofCondition_eq rfl rfl]
  cases found : Constraint.ofCondition (namesOf (referencesOf t.comparisons)) true t with
  | error e => rw [eq_notFinite_of_ofCondition known found]; rfl
  | ok goal =>
    obtain ⟨c, member, infinite⟩ := infinite
    have finite := (isChecked_of_ofCondition found c member).2
    rw [infinite] at finite
    cases finite

def HasWrittenWitness (t : Condition) : Prop :=
  ∃ v : Text → Rat,
    t.Holds (HoldsByName Comparison.checkedThreshold fun name => (v name : ℝ)) ∧
    ∀ c ∈ t.comparisons, ∃ x, written (v (nameOf c.reference)) = .ok x

/-- Numbers satisfy the condition, and one of them is too large to be written although it is a
sample of the thresholds and of one. -/
def HasLargeWitness (t : Condition) : Prop :=
  ∃ v : Text → Rat,
    t.Holds (HoldsByName Comparison.checkedThreshold fun name => (v name : ℝ)) ∧
    ∃ c ∈ t.comparisons, written (v (nameOf c.reference)) = .error .witnessTooLarge ∧
      ∃ values : List Rat, v (nameOf c.reference) ∈ samples values ∧
        ∀ value ∈ values, value = 1 ∨ ∃ c ∈ t.comparisons, value = c.checkedThreshold

theorem mem_referencesOf {cs : List Comparison} {r : Text} :
    r ∈ referencesOf cs ↔ ∃ c ∈ cs, c.reference = r := by
  rw [referencesOf, List.mem_eraseDups, List.mem_map]

/-- With finite thresholds only a value that cannot be written makes the check fail. -/
theorem ofCondition_ok_or_tooLarge {t : Condition} (checked : ∀ c ∈ t.comparisons, c.IsChecked) :
    (∃ c, ofCondition t = .ok c ∧ (HasWrittenWitness t ∨
      ¬∃ v : Text → ℝ, t.Holds (HoldsByName Comparison.checkedThreshold v))) ∨
    ofCondition t = .error .witnessTooLarge ∧ HasLargeWitness t := by
  have judged := ofCondition_judged checked
  generalize same : namesOf (referencesOf t.comparisons) = names
  have named : ∀ c ∈ t.comparisons, c.IsChecked ∧ nameOf c.reference ∈ names :=
    fun c member => ⟨checked c member, same ▸ nameOf_mem_namesOf member⟩
  obtain ⟨goal, found, below, -⟩ := Constraint.ofCondition_exact true named
  rw [ofCondition_eq rfl same, found] at judged ⊢
  simp only [Except.bind] at judged ⊢
  rcases ofConstraint_cases (referencesOf t.comparisons) names goal with
    ⟨-, -, verdict⟩ | ⟨box, solved, ⟨values, verdict, -, each⟩ | ⟨failed, r, member, large⟩⟩
  · rw [verdict] at judged
    cases judged with
    | refuted never => exact .inl ⟨_, verdict, .inr never⟩
  · refine .inl ⟨_, verdict, .inl ⟨fun name => box.value (names.idxOf name),
      holds_of_solved named found solved, fun c member => ?_⟩⟩
    exact each c.reference (mem_referencesOf.2 ⟨c, member, rfl⟩)
  · obtain ⟨c, inside, rfl⟩ := mem_referencesOf.1 member
    have compares : goal.Compares fun q =>
        q = 1 ∨ ∃ c ∈ t.comparisons, q = c.checkedThreshold :=
      compares_of_ofCondition (fun c inside => .inr ⟨c, inside, rfl⟩) found
    have bound := List.idxOf_lt_length_of_mem (named c inside).2
    obtain ⟨values, each, sampled⟩ :=
      Constraint.value_mem_samples (.inl rfl) compares below solved bound
    exact .inr ⟨failed, fun name => box.value (names.idxOf name),
      holds_of_solved named found solved, c, inside, large, values, sampled, each⟩

/-- Thresholds that are fractions of moderate size have a witness that can be written. -/
theorem exists_ofCondition_of_isFraction {d b : Nat} {t : Condition} (positive : 0 < d)
    (le : d ≤ b) (small : 2 * (b + d) ≤ writtenLimit)
    (checked : ∀ c ∈ t.comparisons, c.IsChecked)
    (fractions : ∀ c ∈ t.comparisons, IsFraction d b c.checkedThreshold) :
    ∃ c, ofCondition t = .ok c := by
  rcases ofCondition_ok_or_tooLarge checked with
    ⟨c, judged, -⟩ | ⟨-, v, -, c, -, large, values, sampled, each⟩
  · exact ⟨c, judged⟩
  · have fraction : IsFraction (2 * d) (2 * (b + d)) (v (nameOf c.reference)) := by
      refine isFraction_of_mem_samples positive (fun value member => ?_) sampled
      rcases each value member with rfl | ⟨c, inside, rfl⟩
      · exact .one positive le
      · exact fractions c inside
    obtain ⟨x, found⟩ := exists_written (by omega) (by omega) small fraction
    rw [found] at large
    cases large

/-- The check of a condition is right unless it fails, and it does not fail if all thresholds can
be checked and the condition cannot be satisfied. -/
theorem ofCondition_cases (t : Condition) :
    (∃ e, ofCondition t = .error e ∧
      ((∃ v : Text → ℝ, t.Holds (Constraint.HoldsByName Comparison.checkedThreshold v)) ∨
        ∃ c ∈ t.comparisons, ¬c.IsChecked)) ∨
    ∃ c, ofCondition t = .ok c ∧ (∀ c ∈ t.comparisons, c.IsChecked) ∧ (c.satisfiable = true ↔
      ∃ v : Text → ℝ, t.Holds (Constraint.HoldsByName Comparison.checkedThreshold v)) := by
  by_cases checked : ∀ c ∈ t.comparisons, c.IsChecked
  · have judged := ofCondition_judged checked
    generalize ofCondition t = outcome at judged
    cases judged with
    | refuted never => exact .inr ⟨_, rfl, checked, nofun, fun once => absurd once never⟩
    | solved once => exact .inr ⟨_, rfl, checked, fun _ => once, fun _ => rfl⟩
    | tooLarge once => exact .inl ⟨_, rfl, .inl once⟩
  · cases found : ofCondition t with
    | error e =>
      push Not at checked
      exact .inl ⟨e, rfl, .inr checked⟩
    | ok c =>
      obtain ⟨goal, constrained, -⟩ := bind_eq_ok (ofCondition_eq (t := t) rfl rfl ▸ found)
      exact absurd (isChecked_of_ofCondition constrained) checked

end Consistency

end ProgressRules

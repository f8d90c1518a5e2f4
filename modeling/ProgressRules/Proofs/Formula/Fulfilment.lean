import Mathlib.Data.List.Basic
import ProgressRules.Proofs.Consistency.Meaning
import ProgressRules.Proofs.Formula.Meaning

/-! Full progress. The progress of a condition without negations never exceeds one hundred, and it
is one hundred exactly where all references that count have reached their thresholds. So the
formula shows one hundred wherever such a condition holds, and nowhere else if it only asks for
thresholds to be reached. -/

namespace ProgressRules

/-! ### Extrema -/

namespace Extremum

variable {bound : Rat} {xs : List Rat}

theorem among_le (f : Extremum) (nonempty : xs ≠ []) (below : ∀ x ∈ xs, x ≤ bound) :
    f.among xs ≤ bound := by
  induction xs with
  | nil => exact absurd rfl nonempty
  | cons x xs ih =>
    obtain ⟨first, others⟩ := List.forall_mem_cons.1 below
    cases xs with
    | nil => exact first
    | cons y ys =>
      rw [f.among_cons x (List.cons_ne_nil y ys)]
      have rest := ih (List.cons_ne_nil y ys) others
      cases f with
      | least => exact min_le_of_left_le first
      | greatest => exact max_le first rest

theorem least_among_eq (nonempty : xs ≠ []) (below : ∀ x ∈ xs, x ≤ bound) :
    least.among xs = bound ↔ ∀ x ∈ xs, x = bound := by
  induction xs with
  | nil => exact absurd rfl nonempty
  | cons x xs ih =>
    obtain ⟨first, others⟩ := List.forall_mem_cons.1 below
    rw [List.forall_mem_cons]
    cases xs with
    | nil => simp [among]
    | cons y ys =>
      have rest := least.among_le (List.cons_ne_nil y ys) others
      rw [among_cons _ x (List.cons_ne_nil y ys), ← ih (List.cons_ne_nil y ys) others]
      constructor
      · intro same
        have both : bound ≤ min x (least.among (y :: ys)) := same.ge
        exact ⟨le_antisymm first (le_min_iff.1 both).1, le_antisymm rest (le_min_iff.1 both).2⟩
      · rintro ⟨rfl, same⟩
        rw [same]
        exact min_self x

theorem greatest_among_eq (nonempty : xs ≠ []) (below : ∀ x ∈ xs, x ≤ bound) :
    greatest.among xs = bound ↔ ∃ x ∈ xs, x = bound := by
  induction xs with
  | nil => exact absurd rfl nonempty
  | cons x xs ih =>
    obtain ⟨first, others⟩ := List.forall_mem_cons.1 below
    rw [List.exists_mem_cons_iff]
    cases xs with
    | nil => simp [among]
    | cons y ys =>
      have rest := greatest.among_le (List.cons_ne_nil y ys) others
      rw [among_cons _ x (List.cons_ne_nil y ys), ← ih (List.cons_ne_nil y ys) others]
      constructor
      · intro same
        have both : bound ≤ max x (greatest.among (y :: ys)) := same.ge
        exact (le_max_iff.1 both).imp (le_antisymm first) (le_antisymm rest)
      · rintro (rfl | same)
        · exact max_eq_left rest
        · exact (max_eq_right (first.trans_eq same.symm)).trans same

end Extremum

/-! ### Conditions without negations -/

namespace Condition

mutual

def Unnegated : Condition → Prop
  | .comparison _ => True
  | .and children => AllUnnegated children
  | .or children => AllUnnegated children
  | .not _ => False

def AllUnnegated : List Condition → Prop
  | [] => True
  | child :: children => Unnegated child ∧ AllUnnegated children

end

mutual

/-- Without negations a condition holds wherever its comparisons are replaced by weaker ones. -/
theorem Holds.mono {atom other : Comparison → Prop} {t : Condition} (unnegated : t.Unnegated)
    (weaker : ∀ c ∈ t.comparisons, atom c → other c) (h : t.Holds atom) : t.Holds other := by
  match t with
  | .comparison c => exact weaker c List.mem_cons_self h
  | .and children => exact AllHold.mono unnegated weaker h
  | .or children => exact AnyHolds.mono unnegated weaker h
  | .not child => exact unnegated.elim

theorem AllHold.mono {atom other : Comparison → Prop} {ts : List Condition}
    (unnegated : AllUnnegated ts) (weaker : ∀ c ∈ comparisonsOfAll ts, atom c → other c)
    (h : AllHold atom ts) : AllHold other ts := by
  match ts with
  | [] => trivial
  | t :: ts =>
    obtain ⟨first, others⟩ := List.forall_mem_append.1 weaker
    exact ⟨Holds.mono unnegated.1 first h.1, AllHold.mono unnegated.2 others h.2⟩

theorem AnyHolds.mono {atom other : Comparison → Prop} {ts : List Condition}
    (unnegated : AllUnnegated ts) (weaker : ∀ c ∈ comparisonsOfAll ts, atom c → other c)
    (h : AnyHolds atom ts) : AnyHolds other ts := by
  match ts with
  | [] => exact h.elim
  | t :: ts =>
    obtain ⟨first, others⟩ := List.forall_mem_append.1 weaker
    exact h.imp (Holds.mono unnegated.1 first) (AnyHolds.mono unnegated.2 others)

end

end Condition

/-! ### Full progress -/

def Comparison.Reached (v : Text → Rat) (c : Comparison) : Prop :=
  c.typedThreshold ≤ v c.reference

theorem Comparison.progress_le (v : Text → Rat) (c : Comparison) : c.progress v ≤ 100 :=
  min_le_right _ _

theorem Comparison.progress_eq_iff {v : Text → Rat} {c : Comparison}
    (positive : 0 < c.typedThreshold) : c.progress v = 100 ↔ c.Reached v := by
  rw [progress, min_eq_right_iff, le_div_iff₀ positive, Reached]
  exact mul_le_mul_iff_right₀ (by norm_num)

namespace Condition

variable {p : Comparison → Prop} {v : Text → Rat}

mutual

/-- Progress is bounded, and it is full exactly if the condition holds of what is reached. -/
theorem progress_full {t : Condition} (regular : t.IsRegular p) (unnegated : t.Unnegated)
    (positive : ∀ c ∈ t.comparisons, 0 < c.typedThreshold) :
    t.progress v ≤ 100 ∧ (t.progress v = 100 ↔ t.Holds (Comparison.Reached v)) := by
  match t with
  | .comparison c =>
    exact ⟨c.progress_le v, Comparison.progress_eq_iff (positive c List.mem_cons_self)⟩
  | .and children =>
    obtain ⟨nonempty, below, all, -⟩ := progressOfAll_full regular.2 unnegated positive
    have some_child := nonempty (List.ne_nil_of_length_pos (by have := regular.1; omega))
    refine ⟨Extremum.least.among_le some_child below, ?_⟩
    exact (Extremum.least_among_eq some_child below).trans all
  | .or children =>
    obtain ⟨nonempty, below, -, any⟩ := progressOfAll_full regular.2 unnegated positive
    have some_child := nonempty (List.ne_nil_of_length_pos (by have := regular.1; omega))
    refine ⟨Extremum.greatest.among_le some_child below, ?_⟩
    exact (Extremum.greatest_among_eq some_child below).trans any
  | .not child => exact unnegated.elim

theorem progressOfAll_full {ts : List Condition} (regular : AllRegular p ts)
    (unnegated : AllUnnegated ts) (positive : ∀ c ∈ comparisonsOfAll ts, 0 < c.typedThreshold) :
    (ts ≠ [] → progressOfAll v ts ≠ []) ∧ (∀ x ∈ progressOfAll v ts, x ≤ 100) ∧
      ((∀ x ∈ progressOfAll v ts, x = 100) ↔ AllHold (Comparison.Reached v) ts) ∧
      ((∃ x ∈ progressOfAll v ts, x = 100) ↔ AnyHolds (Comparison.Reached v) ts) := by
  match ts with
  | [] => simp [progressOfAll, AllHold, AnyHolds]
  | t :: ts =>
    obtain ⟨first, others⟩ := List.forall_mem_append.1 positive
    obtain ⟨below, full⟩ := progress_full regular.1 unnegated.1 first
    obtain ⟨-, below', all, any⟩ := progressOfAll_full regular.2 unnegated.2 others
    refine ⟨fun _ => List.cons_ne_nil _ _, List.forall_mem_cons.2 ⟨below, below'⟩, ?_, ?_⟩
    · rw [progressOfAll, List.forall_mem_cons, AllHold, full, all]
    · rw [progressOfAll, List.exists_mem_cons_iff, AnyHolds, full, any]

end

end Condition

/-! ### Formulas of such conditions -/

namespace Formula

open Expression (IsPrefix)

theorem joinOperands_ne_none {binaryCalls : Bool} {function : Extremum}
    {fs : Option (List Formula)} (some_formulas : fs ≠ none) :
    joinOperands binaryCalls function fs ≠ .ok none := by
  cases fs with
  | none => exact absurd rfl some_formulas
  | some parts =>
    rw [joinOperands]
    cases combine binaryCalls (.call function) parts <;> intro same <;> cases same

mutual

/-- Only a threshold without a scale leaves a condition without a formula. -/
theorem ofCondition_ne_none (binaryCalls : Bool) {t : Condition}
    (scaled : ∀ c ∈ t.comparisons, c.threshold.nonpositive = false) :
    ofCondition binaryCalls t ≠ .ok none := by
  match t with
  | .comparison c =>
    have positive : c.threshold.nonpositive = false := scaled c List.mem_cons_self
    simp [ofCondition, ofComparison?, positive]
  | .not child =>
    have inside : ofCondition binaryCalls child ≠ .ok none := ofCondition_ne_none binaryCalls scaled
    rw [ofCondition]
    cases found : ofCondition binaryCalls child with
    | error e => nofun
    | ok f =>
      cases f with
      | none => exact absurd found inside
      | some f => nofun
  | .and children =>
    have inside : ofConditions binaryCalls children ≠ .ok none :=
      ofConditions_ne_none binaryCalls scaled
    cases found : ofConditions binaryCalls children with
    | error e => rw [ofCondition, found]; nofun
    | ok fs =>
      rw [ofCondition_and found]
      exact joinOperands_ne_none fun none => inside (none ▸ found)
  | .or children =>
    have inside : ofConditions binaryCalls children ≠ .ok none :=
      ofConditions_ne_none binaryCalls scaled
    cases found : ofConditions binaryCalls children with
    | error e => rw [ofCondition, found]; nofun
    | ok fs =>
      rw [ofCondition_or found]
      exact joinOperands_ne_none fun none => inside (none ▸ found)

theorem ofConditions_ne_none (binaryCalls : Bool) {ts : List Condition}
    (scaled : ∀ c ∈ Condition.comparisonsOfAll ts, c.threshold.nonpositive = false) :
    ofConditions binaryCalls ts ≠ .ok none := by
  match ts with
  | [] => nofun
  | t :: ts =>
    obtain ⟨first, others⟩ := List.forall_mem_append.1 scaled
    have here := ofCondition_ne_none binaryCalls first
    have there := ofConditions_ne_none binaryCalls others
    rw [ofConditions]
    cases found : ofCondition binaryCalls t with
    | error e => nofun
    | ok f =>
      cases f with
      | none => exact absurd found here
      | some f =>
        cases found' : ofConditions binaryCalls ts with
        | error e => nofun
        | ok fs =>
          cases fs with
          | none => exact absurd found' there
          | some fs => nofun

end

theorem typedThreshold_pos {c : Comparison} (written : c.IsWritten)
    (scaled : c.threshold.nonpositive = false) : 0 < c.typedThreshold := by
  obtain ⟨w, wellFormed, rfl⟩ := written
  rw [Comparison.typedThreshold_comparison wellFormed]
  rw [w.threshold_comparison] at scaled
  exact Numeral.value_pos scaled

/-- The condition holds of rational numbers, with its thresholds as they are typed. -/
def HoldsTyped (v : Text → Rat) (t : Condition) : Prop :=
  t.Holds (Comparison.Holds Comparison.typedThreshold fun r => (v r : ℝ))

theorem reached_of_holds {v : Text → Rat} {c : Comparison}
    (upward : c.operator ∈ [.ge, .gt, .eq])
    (h : Comparison.Holds Comparison.typedThreshold (fun r => (v r : ℝ)) c) : c.Reached v := by
  have below : (c.typedThreshold : ℝ) ≤ v c.reference := by
    simp only [List.mem_cons, List.not_mem_nil, or_false] at upward
    unfold Comparison.Holds at h
    rcases upward with same | same | same <;> rw [same] at h
    · exact h
    · exact le_of_lt h
    · exact le_of_eq (Eq.symm h)
  exact_mod_cast below

theorem holds_of_reached {v : Text → Rat} {c : Comparison} (upward : c.operator = .ge)
    (h : c.Reached v) : Comparison.Holds Comparison.typedThreshold (fun r => (v r : ℝ)) c := by
  have below : (c.typedThreshold : ℝ) ≤ v c.reference := by exact_mod_cast h
  rw [Comparison.Holds, upward]
  exact below

/-- A condition of conjunctions and disjunctions whose thresholds are not rounded to zero has a
formula with one reading. If its comparisons ask for their thresholds to be reached, the formula
is one hundred wherever the condition holds; if they ask for no more than that, the formula is
one hundred nowhere else. -/
theorem hundred_of_holds {functionPrefix : Text} (told : IsPrefix functionPrefix)
    (binaryCalls : Bool) {t : Condition} (written : t.IsRegular Comparison.IsWritten)
    (unnegated : t.Unnegated) (scaled : ∀ c ∈ t.comparisons, c.threshold.nonpositive = false) :
    ∃ f value, ofCondition binaryCalls t = .ok (some f) ∧
      (∀ d : Decomposition, d.StandsFor t → ofDecomposition binaryCalls d = .ok (some f)) ∧
      HasOneReading functionPrefix (textOf functionPrefix (some f)) value ∧
      ∀ v, ((∀ c ∈ t.comparisons, c.operator ∈ [.ge, .gt, .eq]) → HoldsTyped v t →
          value v = 100) ∧
        ((∀ c ∈ t.comparisons, c.operator = .ge) → (value v = 100 ↔ HoldsTyped v t)) := by
  obtain ⟨g, formula, means⟩ := ofCondition_means functionPrefix binaryCalls written
  cases g with
  | none => exact absurd formula (ofCondition_ne_none binaryCalls scaled)
  | some f =>
    have positive : ∀ c ∈ t.comparisons, 0 < c.typedThreshold := fun c member =>
      typedThreshold_pos (written.of_mem c member) (scaled c member)
    refine ⟨f, fun v => t.progress v, formula, fun d standsFor => ?_,
      (means f rfl).hasOneReading told, fun v => ?_⟩
    · rw [ofDecomposition_eq_ofCondition standsFor, formula]
    · have full := (Condition.progress_full (v := v) written unnegated positive).2
      have enough : (∀ c ∈ t.comparisons, c.operator ∈ [.ge, .gt, .eq]) → HoldsTyped v t →
          t.progress v = 100 := fun upward holds =>
        full.2 (holds.mono unnegated fun c member => reached_of_holds (upward c member))
      refine ⟨enough, fun bounds => ⟨fun same => ?_, enough fun c member => ?_⟩⟩
      · exact (full.1 same).mono unnegated fun c member => holds_of_reached (bounds c member)
      · simp [bounds c member]

end Formula

namespace Sample

def reaching (name : Text) (number : Numeral) : WrittenComparison :=
  ⟨⟨name, []⟩, [], .ge, [], number⟩

/-- Written as `(#level>=5||#coins>=0.25)&&#level>=2`. -/
def reachingAll : Condition :=
  .and [
    .or [.comparison (reaching "level".toList ⟨['5'], []⟩).comparison,
      .comparison (reaching "coins".toList ⟨['0'], ['2', '5']⟩).comparison],
    .comparison (reaching "level".toList ⟨['2'], []⟩).comparison]

theorem reachingAll_isRegular : reachingAll.IsRegular Comparison.IsWritten := by
  have written : ∀ name number, Text.IsRun Text.isWord name → number.WellFormed →
      (reaching name number).comparison.IsWritten := by
    intro name number run wellFormed
    exact ⟨_, ⟨⟨run, by simp [reaching]⟩, Text.blank_nil, fun _ => Operator.noConfusion, Text.blank_nil,
      wellFormed⟩, rfl⟩
  have level : Text.IsRun Text.isWord "level".toList := ⟨by decide, by decide⟩
  have coins : Text.IsRun Text.isWord "coins".toList := ⟨by decide, by decide⟩
  have five : Numeral.WellFormed ⟨['5'], []⟩ := ⟨⟨by decide, by decide⟩, by decide⟩
  have quarter : Numeral.WellFormed ⟨['0'], ['2', '5']⟩ := ⟨⟨by decide, by decide⟩, by decide⟩
  have two : Numeral.WellFormed ⟨['2'], []⟩ := ⟨⟨by decide, by decide⟩, by decide⟩
  exact ⟨by decide, ⟨by decide, written _ _ level five, written _ _ coins quarter, trivial⟩,
    written _ _ level two, trivial⟩

/-- Its number is above zero, and the nearest double is zero. -/
def tiny : WrittenComparison :=
  ⟨⟨"progressField".toList, []⟩, [' '], .ge, [' '], ⟨['0'], List.replicate 324 '0' ++ ['1']⟩⟩

end Sample

namespace Formula

open Expression (IsPrefix)
open Sample (reaching reachingAll tiny)

theorem hundred_of_reachingAll :
    ∃ f value, ofCondition false reachingAll = .ok (some f) ∧
      HasOneReading [] (textOf [] (some f)) value ∧
      value (fun _ => 5) = 100 ∧ value (fun _ => 0) ≠ 100 := by
  have told : IsPrefix [] := Text.stops_nil _
  have unnegated : reachingAll.Unnegated := ⟨⟨trivial, trivial, trivial⟩, trivial, trivial⟩
  have scaled : ∀ c ∈ reachingAll.comparisons, c.threshold.nonpositive = false := by
    decide +kernel
  have bounds : ∀ c ∈ reachingAll.comparisons, c.operator = .ge := by
    decide
  obtain ⟨f, value, formula, -, reading, full⟩ :=
    hundred_of_holds told false Sample.reachingAll_isRegular unnegated scaled
  have exactly : ∀ v, value v = 100 ↔ HoldsTyped v reachingAll := fun v => (full v).2 bounds
  have five : (reaching "level".toList ⟨['5'], []⟩).comparison.Reached fun _ => 5 := by
    unfold Comparison.Reached
    decide +kernel
  have two : ∀ x : Rat, 2 ≤ x ↔
      (reaching "level".toList ⟨['2'], []⟩).comparison.Reached fun _ => x := by
    have typed : (reaching "level".toList ⟨['2'], []⟩).comparison.typedThreshold = 2 := by
      decide +kernel
    intro x
    rw [Comparison.Reached, typed]
  refine ⟨f, value, formula, reading, (exactly _).2 ?_, fun same => ?_⟩
  · exact ⟨Or.inl (holds_of_reached rfl five),
      holds_of_reached rfl ((two 5).1 (by decide)), trivial⟩
  · obtain ⟨-, last, -⟩ := (exactly _).1 same
    have above : (2 : Rat) ≤ 0 := (two 0).2 (reached_of_holds (by decide) last)
    exact absurd above (by decide)

/-- What is rounded to zero is refused as zero is. -/
theorem no_formula_though_positive :
    decompose tiny.markedText = ⟨.none, [tiny.comparison]⟩ ∧
      0 < tiny.comparison.typedThreshold ∧ HoldsTyped (fun _ => 1) (.comparison tiny.comparison) ∧
      ofCondition false (.comparison tiny.comparison) = .ok none := by
  refine ⟨by decide +kernel, by decide +kernel, ?_, ?_⟩
  · have reached : tiny.comparison.Reached fun _ => 1 := by
      unfold Comparison.Reached
      decide +kernel
    exact holds_of_reached rfl reached
  · have refused : tiny.comparison.threshold.nonpositive = true := by decide +kernel
    rw [ofCondition, ofComparison?, if_pos refused]

end Formula

end ProgressRules

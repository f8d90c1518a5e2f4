import ProgressRules.Proofs.Condition.Tokens
import ProgressRules.Proofs.Consistency.Thresholds
import ProgressRules.Proofs.Consistency.Witness
import ProgressRules.Proofs.Conversion.Modes

/-! The warning that a rule can never be satisfied. It is given exactly if no real numbers satisfy
the rule as it is checked, with the shortest decimal of each threshold. It is right about the rule
as it is typed if different decimals are not rounded to one threshold. -/

namespace ProgressRules

/-! ### Formulas of nested rules -/

namespace Formula

theorem exists_combine_of_length {α : Type} (binaryCalls : Bool) (apply : List α → α)
    {arguments : List α} (several : 2 ≤ arguments.length) :
    ∃ a, combine binaryCalls apply arguments = .ok a :=
  exists_combine binaryCalls apply (List.ne_nil_of_length_pos (by omega))

mutual

theorem exists_ofCondition (binaryCalls : Bool) {p : Comparison → Prop} {t : Condition}
    (regular : t.IsRegular p) : ∃ f, ofCondition binaryCalls t = .ok f := by
  match t with
  | .comparison c => exact ⟨_, rfl⟩
  | .not child =>
    have inside : child.IsRegular p := regular
    obtain ⟨f, found⟩ := exists_ofCondition binaryCalls inside
    exact ⟨f.map .complement, by rw [ofCondition, found]; rfl⟩
  | .and children =>
    obtain ⟨fs, found, size⟩ := exists_ofConditions binaryCalls regular.2
    rw [ofCondition, found]
    cases fs with
    | none => exact ⟨none, rfl⟩
    | some parts =>
      obtain ⟨f, joined⟩ := exists_combine_of_length binaryCalls (.call .least)
        (size parts rfl ▸ regular.1)
      exact ⟨some f, congrArg (Except.map some) joined⟩
  | .or children =>
    obtain ⟨fs, found, size⟩ := exists_ofConditions binaryCalls regular.2
    rw [ofCondition, found]
    cases fs with
    | none => exact ⟨none, rfl⟩
    | some parts =>
      obtain ⟨f, joined⟩ := exists_combine_of_length binaryCalls (.call .greatest)
        (size parts rfl ▸ regular.1)
      exact ⟨some f, congrArg (Except.map some) joined⟩

theorem exists_ofConditions (binaryCalls : Bool) {p : Comparison → Prop} {ts : List Condition}
    (regular : Condition.AllRegular p ts) : ∃ fs, ofConditions binaryCalls ts = .ok fs ∧
      ∀ parts, fs = some parts → parts.length = ts.length := by
  match ts with
  | [] => exact ⟨some [], rfl, fun _ same => by cases same; rfl⟩
  | t :: ts =>
    obtain ⟨f, found⟩ := exists_ofCondition binaryCalls regular.1
    obtain ⟨fs, found', size⟩ := exists_ofConditions binaryCalls regular.2
    rw [ofConditions, found]
    cases f with
    | none => exact ⟨none, rfl, nofun⟩
    | some f =>
      rw [found']
      refine ⟨fs.map (f :: ·), rfl, fun parts same => ?_⟩
      obtain ⟨others, rfl, rfl⟩ := Option.map_eq_some_iff.1 same
      rw [List.length_cons, List.length_cons, size others rfl]

end

end Formula

/-! ### Accepted rules -/

namespace Conversion

variable {settings : Settings} {catalog : Catalog} {source rule : Text} {t : Condition}

def Accepts (settings : Settings) (rule : Text) (t : Condition) : Prop :=
  if settings.nested then Condition.ofRule? rule = some t else (decompose rule).StandsFor t

theorem Accepts.ofRule?_eq (h : Accepts settings rule t) : Condition.ofRule? rule = some t := by
  unfold Accepts at h
  split at h
  · exact h
  · obtain ⟨u, standsFor, read⟩ := Decomposition.exists_standsFor h.recognised
    rw [read, standsFor.unique h]

theorem Accepts.consistencyOf_eq (h : Accepts settings rule t)
    (on : settings.checkConsistency = true) :
    consistencyOf settings (conditionOf settings rule) (decompose rule) =
      (Consistency.ofCondition t).map some := by
  unfold Accepts at h
  unfold consistencyOf conditionOf
  rw [if_pos on]
  split at h
  · rw [if_pos ‹_›, h]
  · rw [if_neg ‹_›, ← Consistency.ofDecomposition_eq_ofCondition h]
    simp only [h.recognised, Bool.false_eq_true, if_false]

theorem exists_formulaOf (settings : Settings) (rule : Text) :
    ∃ f, formulaOf settings (conditionOf settings rule) (decompose rule) = .ok f := by
  unfold formulaOf conditionOf
  cases settings.nested with
  | false => exact Formula.exists_ofDecomposition settings.binaryCalls (decompose rule)
  | true =>
    cases read : Condition.ofRule? rule with
    | none => exact ⟨none, rfl⟩
    | some t =>
      exact Formula.exists_ofCondition settings.binaryCalls (Condition.isRegular_of_ofRule? read)

/-- The warnings are the others, followed by the one about rules that can never be satisfied if
the rule is no longer satisfiable. -/
def WarnsUnless (satisfiable : Prop) (others : List Text) (c : Conversion) : Prop :=
  (satisfiable → c.warnings = others) ∧ (¬satisfiable → c.warnings = others ++ [neverSatisfied])

theorem ofRule_warns (h : Accepts settings rule t) (on : settings.checkConsistency = true)
    (catalog : Catalog) (source : Text) :
    (∃ cause, ofRule settings catalog source rule = .error (.consistency cause) ∧
      ((∃ v : Text → ℝ, t.Holds (Constraint.HoldsByName Comparison.checkedThreshold v)) ∨
        ∃ c ∈ t.comparisons, ¬c.IsChecked)) ∨
    ∃ c, ofRule settings catalog source rule = .ok c ∧ c.rule = rule ∧
      (∀ c ∈ t.comparisons, c.IsChecked) ∧ c.WarnsUnless
        (∃ v : Text → ℝ, t.Holds (Constraint.HoldsByName Comparison.checkedThreshold v))
        (catalog.unknownReferences rule) := by
  obtain ⟨f, formula⟩ := exists_formulaOf settings rule
  unfold ofRule
  simp only [formula, h.consistencyOf_eq on]
  rcases Consistency.ofCondition_cases t with
    ⟨e, failed, why⟩ | ⟨c, found, checked, truth⟩
  · rw [failed]
    exact .inl ⟨e, rfl, why⟩
  · rw [found]
    refine .inr ⟨_, rfl, rfl, checked, fun once => ?_, fun never => ?_⟩
    · have satisfiable : unsatisfiable (some c) = false := by simp [unsatisfiable, truth.2 once]
      exact (congrArg _ (if_neg (by simp [satisfiable]))).trans (List.append_nil _)
    · have refuted : unsatisfiable (some c) = true := by
        simpa [unsatisfiable] using mt truth.1 never
      exact congrArg _ (if_pos refuted)

theorem convert_eq_ofRule (h : Accepts settings rule t)
    (normalized : normalize catalog.toList source = .ok rule) :
    convert settings catalog source = ofRule settings catalog source rule := by
  have visible : Text.blankOnly source = false := by
    refine Bool.eq_false_iff.2 fun blank => ?_
    rw [normalize, if_pos blank] at normalized
    cases normalized
    have read := h.ofRule?_eq
    cases read
  rw [convert, normalized, if_neg (by simp [visible])]
  rfl

end Conversion

open Conversion in
/-- The warning of a checked rule is right about the rule as it is checked, which is by the names
of its references and the shortest decimals of its thresholds. It is right about the rule as it
is typed if no two references share a name and no two decimals are rounded to one threshold. -/
theorem convert_warns {settings : Settings} {catalog : Catalog} {source : Text}
    (plain : ∀ root ∈ catalog.roots, Text.backslash ∉ root)
    (on : settings.checkConsistency = true) :
    ∃ rule, normalize catalog.toList source = .ok rule ∧ ∀ t, Accepts settings rule t →
      (∃ cause, convert settings catalog source = .error (.consistency cause) ∧
        ((∃ v : Text → ℝ, t.Holds (Constraint.HoldsByName Comparison.checkedThreshold v)) ∨
          ∃ c ∈ t.comparisons, ¬c.IsChecked)) ∨
      ∃ c, convert settings catalog source = .ok c ∧ c.rule = rule ∧
        c.WarnsUnless
          (∃ v : Text → ℝ, t.Holds (Constraint.HoldsByName Comparison.checkedThreshold v))
          (catalog.unknownReferences rule) ∧
        (Consistency.NamesApart t.comparisons → Condition.Distinguished t.comparisons →
          c.WarnsUnless
            (∃ v : Text → ℝ, t.Holds (Comparison.Holds Comparison.typedThreshold v))
            (catalog.unknownReferences rule)) := by
  obtain ⟨rule, normalized⟩ := exists_normalize plain source
  refine ⟨rule, normalized, fun t accepted => ?_⟩
  rw [convert_eq_ofRule accepted normalized]
  rcases ofRule_warns accepted on catalog source with failed | ⟨c, converted, same, checked, warns⟩
  · exact .inl failed
  · refine .inr ⟨c, converted, same, warns, fun apart distinguished => ?_⟩
    have regular := Condition.isRegular_of_ofRule? accepted.ofRule?_eq
    rw [← Condition.satisfiable_iff_typed regular checked apart distinguished]
    exact warns

namespace Sample

def checking : Settings := { Settings.default with checkConsistency := true }

@[irreducible] def fractional (fraction : Text) : Binary64 := (Numeral.mk ['0'] fraction).nearest

/-- Written as `#progressField>0.1`, with the given operator and fraction. -/
def progressAgainst (operator : Operator) (fraction : Text) : Comparison :=
  ⟨"progressField".toList, operator, fractional fraction, '0' :: '.' :: fraction⟩

def between (low high : Text) : List Comparison :=
  [progressAgainst .gt low, progressAgainst .lt high]

def betweenCondition (low high : Text) : Condition := .and ((between low high).map .comparison)

theorem comparisons_betweenCondition (low high : Text) :
    (betweenCondition low high).comparisons = between low high := rfl

variable {low high rule : Text}

theorem reference_of_mem {c : Comparison} (member : c ∈ between low high) :
    c.reference = "progressField".toList := by
  simp only [between, List.mem_cons, List.not_mem_nil, or_false] at member
  rcases member with rfl | rfl <;> rfl

theorem isChecked_of_mem {c : Comparison} (member : c ∈ between low high)
    (finite : c.threshold.isFinite = true) : c.IsChecked := by
  refine ⟨fun symbol same => ?_, finite⟩
  simp only [between, List.mem_cons, List.not_mem_nil, or_false] at member
  rcases member with rfl | rfl <;> cases same

theorem holds_between {threshold : Comparison → Rat} {v : Text → ℝ} :
    (betweenCondition low high).Holds (Comparison.Holds threshold v) ↔
      (threshold (progressAgainst .gt low) : ℝ) < v "progressField".toList ∧
        v "progressField".toList < (threshold (progressAgainst .lt high) : ℝ) := by
  have both : (betweenCondition low high).Holds (Comparison.Holds threshold v) ↔
      ∀ c ∈ between low high, Comparison.Holds threshold v c :=
    Condition.allHold_comparisons
  exact both.trans (List.forall_mem_cons.trans (and_congr_right' List.forall_mem_singleton))

theorem not_satisfiable_between {threshold : Comparison → Rat}
    (descending : threshold (progressAgainst .lt high) ≤ threshold (progressAgainst .gt low)) :
    ¬∃ v : Text → ℝ, (betweenCondition low high).Holds (Comparison.Holds threshold v) := by
  rintro ⟨v, holds⟩
  obtain ⟨above, below⟩ := holds_between.1 holds
  exact (Rat.cast_le.2 descending).not_gt (above.trans below)

theorem accepts_between (decomposed : decompose rule = ⟨.and, between low high⟩) :
    Conversion.Accepts checking rule (betweenCondition low high) := by
  have standsFor : (decompose rule).StandsFor (betweenCondition low high) :=
    decomposed ▸ .all (between low high) (le_refl 2)
  exact standsFor

end Sample

open Sample Conversion

theorem convert_contradiction :
    ∃ c, convert checking Catalog.default
        "progressField > 0.5 and progressField < 0.25".toList = .ok c ∧
      c.warnings = [neverSatisfied] := by
  have computed : (normalize Catalog.default.toList
      "progressField > 0.5 and progressField < 0.25".toList).toOption =
        some "#progressField > 0.5 && #progressField < 0.25".toList := by
    decide +kernel
  have decomposed : decompose "#progressField > 0.5 && #progressField < 0.25".toList =
      ⟨.and, between ['5'] ['2', '5']⟩ := by
    decide +kernel
  have finite : ∀ c ∈ between ['5'] ['2', '5'], c.threshold.isFinite = true := by
    decide +kernel
  have descending : (progressAgainst .lt ['2', '5']).typedThreshold ≤
      (progressAgainst .gt ['5']).typedThreshold := by
    decide +kernel
  have descending' : (progressAgainst .lt ['2', '5']).checkedThreshold ≤
      (progressAgainst .gt ['5']).checkedThreshold := by
    decide +kernel
  have distinguished : ∀ c ∈ between ['5'] ['2', '5'], ∀ c' ∈ between ['5'] ['2', '5'],
      c.reference = c'.reference → c.threshold = c'.threshold →
        c.typedThreshold = c'.typedThreshold := by
    decide +kernel
  have known : Catalog.default.unknownReferences
      "#progressField > 0.5 && #progressField < 0.25".toList = [] := by
    decide +kernel
  obtain ⟨rule, normalized, warns⟩ := @convert_warns checking Catalog.default
    "progressField > 0.5 and progressField < 0.25".toList (by decide +kernel) rfl
  rw [normalized] at computed
  cases Option.some.inj computed
  have inside := comparisons_betweenCondition ['5'] ['2', '5']
  have apart : Consistency.NamesApart (betweenCondition ['5'] ['2', '5']).comparisons :=
    fun c member c' member' _ => by
      rw [reference_of_mem (inside ▸ member), reference_of_mem (inside ▸ member')]
  have never : ¬∃ v : Text → ℝ, (betweenCondition ['5'] ['2', '5']).Holds
      (Constraint.HoldsByName Comparison.checkedThreshold v) :=
    fun ⟨v, holds⟩ => not_satisfiable_between descending' ⟨_, holds⟩
  rcases warns _ (accepts_between decomposed) with ⟨cause, -, once | ⟨c, member, fails⟩⟩ |
    ⟨c, converted, -, -, typed⟩
  · exact absurd once never
  · exact absurd (isChecked_of_mem member (finite c member)) fails
  · have warned := (typed apart (inside ▸ distinguished)).2 (not_satisfiable_between descending)
    exact ⟨c, converted, warned.trans (by rw [known]; rfl)⟩

/-- The fractions differ, and are rounded to one threshold. -/
theorem warned_though_satisfiable :
    ∃ c t, convert checking Catalog.default
        "progressField > 0.1 and progressField < 0.10000000000000000000001".toList = .ok c ∧
      Accepts checking c.rule t ∧ c.warnings = [neverSatisfied] ∧
      ∃ v : Text → ℝ, t.Holds (Comparison.Holds Comparison.typedThreshold v) := by
  have computed : (normalize Catalog.default.toList
      "progressField > 0.1 and progressField < 0.10000000000000000000001".toList).toOption =
        some "#progressField > 0.1 && #progressField < 0.10000000000000000000001".toList := by
    decide +kernel
  have decomposed :
      decompose "#progressField > 0.1 && #progressField < 0.10000000000000000000001".toList =
        ⟨.and, between ['1'] "10000000000000000000001".toList⟩ := by
    decide +kernel
  have finite : ∀ c ∈ between ['1'] "10000000000000000000001".toList,
      c.threshold.isFinite = true := by
    decide +kernel
  have equal : (progressAgainst .gt ['1']).checkedThreshold =
      (progressAgainst .lt "10000000000000000000001".toList).checkedThreshold := by
    decide +kernel
  have ascending : (progressAgainst .gt ['1']).typedThreshold <
      (progressAgainst .lt "10000000000000000000001".toList).typedThreshold := by
    decide +kernel
  have known : Catalog.default.unknownReferences
      "#progressField > 0.1 && #progressField < 0.10000000000000000000001".toList = [] := by
    decide +kernel
  have never : ¬∃ v : Text → ℝ, (betweenCondition ['1'] "10000000000000000000001".toList).Holds
      (Constraint.HoldsByName Comparison.checkedThreshold v) :=
    fun ⟨v, holds⟩ => not_satisfiable_between equal.ge ⟨_, holds⟩
  obtain ⟨rule, normalized⟩ := @exists_normalize Catalog.default.toList (by decide +kernel)
    "progressField > 0.1 and progressField < 0.10000000000000000000001".toList
  rw [normalized] at computed
  cases Option.some.inj computed
  have accepted := accepts_between decomposed
  have converted := convert_eq_ofRule accepted normalized
  rcases ofRule_warns accepted rfl Catalog.default _ with ⟨cause, -, once | ⟨c, member, fails⟩⟩ |
    ⟨c, checked, same, -, warns⟩
  · exact absurd once never
  · exact absurd (isChecked_of_mem member (finite c member)) fails
  · refine ⟨c, _, converted.trans checked, same ▸ accepted, (warns.2 never).trans ?_, ?_⟩
    · rw [known]
      rfl
    · have apart : ((progressAgainst .gt ['1']).typedThreshold : ℝ) <
          (progressAgainst .lt "10000000000000000000001".toList).typedThreshold :=
        Rat.cast_lt.2 ascending
      obtain ⟨x, above, below⟩ := exists_between apart
      exact ⟨fun _ => x, holds_between.2 ⟨above, below⟩⟩

end ProgressRules

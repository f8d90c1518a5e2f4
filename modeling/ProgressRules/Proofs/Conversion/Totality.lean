import ProgressRules.Proofs.Conversion.Warning

/-! Totality. A conversion gives a result unless an accepted rule is checked and a threshold is
not finite, or a value of the witness is too large to be written. -/

namespace ProgressRules

/-! ### Moderate thresholds -/

/-- The typed threshold is zero, or neither very small nor very large. -/
def Comparison.IsModerate (c : Comparison) : Prop :=
  c.typedThreshold = 0 ∨ 1 / 10 ^ 100 ≤ c.typedThreshold ∧ c.typedThreshold ≤ 10 ^ 100

namespace Numeral

variable {n n' : Numeral} {negative : Bool} {m : Magnitude}

theorem isFinite_of_le (le : n.value ≤ n'.value) (finite : n'.nearest.isFinite = true) :
    n.nearest.isFinite = true :=
  isFinite_nearest_iff.2 ((units_mono le).trans_lt (isFinite_nearest_iff.1 finite))

theorem shortestDecimal_le_of_le {q : Rat} (h : n.nearest = .finite negative m)
    (le : n.value ≤ n'.value) (greatest : n'.nearest.shortestDecimal? = some q) :
    m.shortestDecimal ≤ q := by
  cases nearest : n'.nearest with
  | finite negative' m' =>
    obtain ⟨rfl, -⟩ := nearest_eq_finite nearest
    rw [nearest, Binary64.shortestDecimal?, if_neg Bool.false_ne_true] at greatest
    rw [← Option.some.inj greatest]
    exact Magnitude.shortestDecimal_le (units_le h nearest le)
  | infinite | nan =>
    rw [nearest] at greatest
    cases greatest

theorem shortestDecimal_of_zero (h : n.nearest = .finite negative m) (zero : n.value = 0) :
    m.shortestDecimal = 0 := by
  have numerator : n.numerator = 0 := by
    have positive : (n.denominator : Rat) ≠ 0 :=
      Nat.cast_ne_zero.2 (Nat.pow_pos (by decide)).ne'
    exact_mod_cast (div_eq_zero_iff.1 zero).resolve_right positive
  have units : m.units = 0 := by
    rw [(nearest_eq_finite h).2, Numeral.units, numerator, Nat.zero_mul, roundUnits_zero]
  rw [Magnitude.shortestDecimal, if_pos units]

def leastModerate : Numeral := ⟨['0'], List.replicate 99 '0' ++ ['1']⟩

def greatestModerate : Numeral := ⟨'1' :: List.replicate 100 '0', []⟩

theorem value_moderate :
    leastModerate.value = 1 / 10 ^ 100 ∧ greatestModerate.value = 10 ^ 100 := by
  decide +kernel

theorem isFinite_of_le_limit (le : n.value ≤ 10 ^ 100) : n.nearest.isFinite = true :=
  isFinite_of_le (le.trans_eq value_moderate.2.symm) (by decide +kernel)

/-- The shortest decimals of moderate numbers have at most 117 places behind the point. -/
theorem isFraction_shortestDecimal (h : n.nearest = .finite negative m)
    (moderate : n.value = 0 ∨ 1 / 10 ^ 100 ≤ n.value ∧ n.value ≤ 10 ^ 100) :
    IsFraction (Nat.pow 10 117) (Nat.pow 10 100 * Nat.pow 10 117) m.shortestDecimal := by
  rcases moderate with zero | ⟨above, below⟩
  · rw [shortestDecimal_of_zero h zero]
    exact .zero _ _
  · have fine : Magnitude.FineGrid leastModerate.units 207 := by
      unfold Magnitude.FineGrid
      decide +kernel
    have grid : Magnitude.gridPerOne = Nat.pow 10 117 * Nat.pow 10 207 := by decide +kernel
    have greatest : greatestModerate.nearest.shortestDecimal? = some (Nat.pow 10 100 : Nat) := by
      decide +kernel
    have units : leastModerate.units ≤ m.units := by
      rw [(nearest_eq_finite h).2]
      exact units_mono (value_moderate.1.trans_le above)
    obtain ⟨digits, same⟩ := Magnitude.exists_shortestDecimal (fine.mono units) grid
    have bound := shortestDecimal_le_of_le h (below.trans_eq value_moderate.2.symm) greatest
    rw [same] at bound ⊢
    exact .of_div_le (Nat.pow_pos (by decide)) bound

end Numeral

theorem Comparison.IsWritten.isFraction {c : Comparison} (written : c.IsWritten)
    (moderate : c.IsModerate) : c.threshold.isFinite = true ∧
      IsFraction (Nat.pow 10 117) (Nat.pow 10 100 * Nat.pow 10 117) c.checkedThreshold := by
  have finite : c.threshold.isFinite = true := by
    obtain ⟨w, wellFormed, rfl⟩ := written
    rw [IsModerate, typedThreshold_comparison wellFormed] at moderate
    simp only [WrittenComparison.comparison]
    refine Numeral.isFinite_of_le_limit ?_
    rcases moderate with zero | ⟨-, below⟩
    · rw [zero]
      positivity
    · exact below
  obtain ⟨n, m, typed, nearest, -, checked⟩ := written.exists_rounding finite
  rw [IsModerate, typed] at moderate
  rw [checked]
  exact ⟨finite, Numeral.isFraction_shortestDecimal nearest moderate⟩

/-! ### The check of written conditions -/

namespace Consistency

variable {t : Condition}

theorem known_of_isWritten (written : t.IsRegular Comparison.IsWritten) :
    ∀ c ∈ t.comparisons, c.operator.Known := by
  intro c member
  obtain ⟨w, wellFormed, rfl⟩ := written.of_mem c member
  exact wellFormed.operator

theorem exists_ofCondition_of_isModerate (written : t.IsRegular Comparison.IsWritten)
    (moderate : ∀ c ∈ t.comparisons, c.IsModerate) : ∃ c, ofCondition t = .ok c := by
  have each := fun c member => (written.of_mem c member).isFraction (moderate c member)
  have small : 2 * (Nat.pow 10 100 * Nat.pow 10 117 + Nat.pow 10 117) ≤ writtenLimit := by
    decide +kernel
  exact exists_ofCondition_of_isFraction (Nat.pow_pos (by decide))
    (Nat.le_mul_of_pos_left _ (Nat.pow_pos (by decide))) small
    (fun c member => ⟨known_of_isWritten written c member, (each c member).1⟩)
    (fun c member => (each c member).2)

end Consistency

/-! ### Conversions -/

namespace Conversion

variable {settings : Settings} {catalog : Catalog} {source rule : Text} {t : Condition}

theorem consistencyOf_of_unaccepted (never : ∀ t, ¬Accepts settings rule t) :
    consistencyOf settings (conditionOf settings rule) (decompose rule) = .ok none := by
  have failed : (decompose rule).failed = true := by
    by_contra recognised
    obtain ⟨t, standsFor, read⟩ := Decomposition.exists_standsFor (Bool.not_eq_true _ ▸ recognised)
    refine never t ?_
    unfold Accepts
    split
    · exact read
    · exact standsFor
  have unread : conditionOf settings rule = none := by
    unfold conditionOf
    split
    · refine Option.eq_none_iff_forall_ne_some.2 fun t read => never t ?_
      rwa [Accepts, if_pos ‹_›]
    · rfl
  unfold consistencyOf
  rw [unread, failed]
  split <;> rfl

theorem exists_ofRule {k : Option Consistency} (catalog : Catalog) (source : Text)
    (checked : consistencyOf settings (conditionOf settings rule) (decompose rule) = .ok k) :
    ∃ c, ofRule settings catalog source rule = .ok c := by
  obtain ⟨f, formula⟩ := exists_formulaOf settings rule
  unfold ofRule
  simp only [formula, checked]
  exact ⟨_, rfl⟩

theorem ofRule_error {e : ConsistencyError} (catalog : Catalog) (source : Text)
    (failed : consistencyOf settings (conditionOf settings rule) (decompose rule) = .error e) :
    ofRule settings catalog source rule = .error (.consistency e) := by
  obtain ⟨f, formula⟩ := exists_formulaOf settings rule
  unfold ofRule
  simp only [formula, failed]
  rfl

theorem Accepts.exists_ofRule (h : Accepts settings rule t)
    (on : settings.checkConsistency = true) {c : Consistency}
    (found : Consistency.ofCondition t = .ok c) (catalog : Catalog) (source : Text) :
    ∃ c, ofRule settings catalog source rule = .ok c := by
  have checked : consistencyOf settings (conditionOf settings rule) (decompose rule) =
      .ok (some c) := by
    rw [h.consistencyOf_eq on, found]
    rfl
  exact Conversion.exists_ofRule catalog source checked

theorem Accepts.ofRule_error (h : Accepts settings rule t)
    (on : settings.checkConsistency = true) {e : ConsistencyError}
    (failed : Consistency.ofCondition t = .error e) (catalog : Catalog) (source : Text) :
    ofRule settings catalog source rule = .error (.consistency e) := by
  have checked : consistencyOf settings (conditionOf settings rule) (decompose rule) =
      .error e := by
    rw [h.consistencyOf_eq on, failed]
    rfl
  exact Conversion.ofRule_error catalog source checked

theorem exists_convert (normalized : normalize catalog.toList source = .ok rule)
    (h : ∃ c, ofRule settings catalog source rule = .ok c) :
    ∃ c, convert settings catalog source = .ok c := by
  unfold convert
  split
  · exact ⟨_, rfl⟩
  · rw [normalized]
    exact h

theorem convert_notFinite (accepted : Accepts settings rule t)
    (normalized : normalize catalog.toList source = .ok rule)
    (on : settings.checkConsistency = true)
    (infinite : ∃ c ∈ t.comparisons, c.threshold.isFinite = false) :
    convert settings catalog source = .error (.consistency .thresholdNotFinite) := by
  have written := Condition.isRegular_of_ofRule? accepted.ofRule?_eq
  have failed :=
    Consistency.ofCondition_notFinite (Consistency.known_of_isWritten written) infinite
  rw [convert_eq_ofRule accepted normalized]
  exact accepted.ofRule_error on failed catalog source

theorem convert_ok_or_tooLarge (accepted : Accepts settings rule t)
    (normalized : normalize catalog.toList source = .ok rule)
    (on : settings.checkConsistency = true)
    (finite : ∀ c ∈ t.comparisons, c.threshold.isFinite = true) :
    ((∃ c, convert settings catalog source = .ok c) ∧ (Consistency.HasWrittenWitness t ∨
      ¬∃ v : Text → ℝ, t.Holds (Constraint.HoldsByName Comparison.checkedThreshold v))) ∨
    convert settings catalog source = .error (.consistency .witnessTooLarge) ∧
      Consistency.HasLargeWitness t := by
  have written := Condition.isRegular_of_ofRule? accepted.ofRule?_eq
  have known := Consistency.known_of_isWritten written
  rw [convert_eq_ofRule accepted normalized]
  rcases Consistency.ofCondition_ok_or_tooLarge fun c member =>
    ⟨known c member, finite c member⟩ with ⟨c, found, truth⟩ | ⟨failed, large⟩
  · exact .inl ⟨accepted.exists_ofRule on found catalog source, truth⟩
  · exact .inr ⟨accepted.ofRule_error on failed catalog source, large⟩

theorem exists_convert_of_isModerate (accepted : Accepts settings rule t)
    (normalized : normalize catalog.toList source = .ok rule)
    (moderate : ∀ c ∈ t.comparisons, c.IsModerate) :
    ∃ c, convert settings catalog source = .ok c := by
  refine exists_convert normalized ?_
  cases on : settings.checkConsistency with
  | false => exact exists_ofRule catalog source (consistencyOf_off on _ _)
  | true =>
    have written := Condition.isRegular_of_ofRule? accepted.ofRule?_eq
    obtain ⟨c, found⟩ := Consistency.exists_ofCondition_of_isModerate written moderate
    exact accepted.exists_ofRule on found catalog source

end Conversion

open Conversion in
/-- Every source text has a rule, and its conversion gives a result unless the rule is accepted
and checked. Then it fails if a threshold is not finite. Otherwise either there is a result, and
numbers that can be written satisfy the rule or none at all, or a sample of the thresholds is too
large to be written. This does not happen if all typed thresholds are moderate. -/
theorem convert_total {settings : Settings} {catalog : Catalog} {source : Text}
    (plain : ∀ root ∈ catalog.roots, Text.backslash ∉ root) :
    ∃ rule, normalize catalog.toList source = .ok rule ∧
      ((settings.checkConsistency = false ∨ ∀ t, ¬Accepts settings rule t) →
        ∃ c, convert settings catalog source = .ok c) ∧
      ∀ t, Accepts settings rule t →
        ((∀ c ∈ t.comparisons, c.IsModerate) → ∃ c, convert settings catalog source = .ok c) ∧
        (settings.checkConsistency = true →
          ((∃ c ∈ t.comparisons, c.threshold.isFinite = false) →
            convert settings catalog source = .error (.consistency .thresholdNotFinite)) ∧
          ((∀ c ∈ t.comparisons, c.threshold.isFinite = true) →
            ((∃ c, convert settings catalog source = .ok c) ∧ (Consistency.HasWrittenWitness t ∨
              ¬∃ v : Text → ℝ, t.Holds (Constraint.HoldsByName Comparison.checkedThreshold v))) ∨
            convert settings catalog source = .error (.consistency .witnessTooLarge) ∧
              Consistency.HasLargeWitness t)) := by
  obtain ⟨rule, normalized⟩ := exists_normalize plain source
  refine ⟨rule, normalized, fun unchecked => ?_, fun t accepted => ?_⟩
  · refine exists_convert normalized ?_
    rcases unchecked with off | never
    · exact exists_ofRule catalog source (consistencyOf_off off _ _)
    · exact exists_ofRule catalog source (consistencyOf_of_unaccepted never)
  · exact ⟨exists_convert_of_isModerate accepted normalized, fun on =>
      ⟨convert_notFinite accepted normalized on, convert_ok_or_tooLarge accepted normalized on⟩⟩

namespace Sample

/-- Written as `#progressField >= 1` with many zeros. -/
def beyond : WrittenComparison :=
  ⟨⟨"progressField".toList, []⟩, [' '], .ge, [' '], ⟨'1' :: List.replicate 309 '0', []⟩⟩

end Sample

open Sample Conversion

theorem exists_convert_between :
    ∃ c, convert checking Catalog.default
      "progressField > 0.25 and progressField < 0.5".toList = .ok c := by
  have computed : (normalize Catalog.default.toList
      "progressField > 0.25 and progressField < 0.5".toList).toOption =
        some "#progressField > 0.25 && #progressField < 0.5".toList := by
    decide +kernel
  have decomposed : decompose "#progressField > 0.25 && #progressField < 0.5".toList =
      ⟨.and, between ['2', '5'] ['5']⟩ := by
    decide +kernel
  have moderate : ∀ c ∈ between ['2', '5'] ['5'], c.IsModerate := by
    unfold Comparison.IsModerate
    decide +kernel
  obtain ⟨rule, normalized, -, accepted⟩ := @convert_total checking Catalog.default
    "progressField > 0.25 and progressField < 0.5".toList (by decide +kernel)
  rw [normalized] at computed
  cases Option.some.inj computed
  exact (accepted _ (accepts_between decomposed)).1
    (comparisons_betweenCondition ['2', '5'] ['5'] ▸ moderate)

/-- A numeral beyond the finite numbers makes the check fail. -/
theorem convert_beyond :
    convert checking Catalog.default beyond.text = .error (.consistency .thresholdNotFinite) := by
  have computed : (normalize Catalog.default.toList beyond.text).toOption =
      some beyond.markedText := by
    decide +kernel
  have decomposed : decompose beyond.markedText = ⟨.none, [beyond.comparison]⟩ := by
    decide +kernel
  have infinite : beyond.comparison.threshold.isFinite = false := by
    decide +kernel
  have accepted : Accepts checking beyond.markedText (.comparison beyond.comparison) := by
    have standsFor : (decompose beyond.markedText).StandsFor (.comparison beyond.comparison) :=
      decomposed ▸ .single beyond.comparison
    exact standsFor
  obtain ⟨rule, normalized⟩ := @exists_normalize Catalog.default.toList (by decide +kernel)
    beyond.text
  rw [normalized] at computed
  cases Option.some.inj computed
  exact convert_notFinite accepted normalized rfl ⟨_, List.mem_singleton_self _, infinite⟩

end ProgressRules

import ProgressRules.Conversion
import ProgressRules.Proofs.Consistency.Flat
import ProgressRules.Proofs.Formula.Flat
import ProgressRules.Proofs.Normalization.SinglePass

/-! Flat and nested settings. A rule that is recognised as flat is read as the condition that it
stands for, and its conversion is the same whether conditions are nested or not. -/

namespace ProgressRules

/-! ### Formulas of recognised rules -/

namespace Formula

theorem exists_combine {α : Type} (binaryCalls : Bool) (apply : List α → α) {arguments : List α}
    (nonempty : arguments ≠ []) : ∃ a, combine binaryCalls apply arguments = .ok a := by
  match arguments with
  | [] => exact absurd rfl nonempty
  | [a] => exact ⟨a, rfl⟩
  | a :: b :: others =>
    unfold combine
    cases binaryCalls with
    | true => exact ⟨_, rfl⟩
    | false => exact ⟨_, rfl⟩

theorem exists_ofDecomposition (binaryCalls : Bool) (d : Decomposition) :
    ∃ f, ofDecomposition binaryCalls d = .ok f := by
  unfold ofDecomposition
  split
  · exact ⟨none, rfl⟩
  · rename_i recognised
    split
    · rename_i parts found
      -- a recognised rule has comparisons, so a call has arguments
      have nonempty : parts ≠ [] := by
        rintro rfl
        obtain ⟨combinator, comparisons⟩ := d
        cases comparisons with
        | nil => exact recognised rfl
        | cons c cs =>
          rw [List.mapM_cons] at found
          cases first : ofComparison? c with
          | none => rw [first] at found; cases found
          | some f =>
            cases others : cs.mapM ofComparison? with
            | none => rw [first, others] at found; cases found
            | some fs => rw [first, others] at found; cases found
      cases d.combinator with
      | none => exact ⟨_, rfl⟩
      | and =>
        obtain ⟨f, same⟩ := exists_combine binaryCalls (.call .least) nonempty
        exact ⟨some f, by rw [joinGroup, same]; rfl⟩
      | or =>
        obtain ⟨f, same⟩ := exists_combine binaryCalls (.call .greatest) nonempty
        exact ⟨some f, by rw [joinGroup, same]; rfl⟩
    · exact ⟨none, rfl⟩

end Formula

/-! ### Conversions -/

namespace Conversion

def flat (settings : Settings) : Settings := { settings with nested := false }

def nested (settings : Settings) : Settings := { settings with nested := true }

variable {t : Condition} {rule : Text}

theorem formulaOf_nested (settings : Settings) (standsFor : (decompose rule).StandsFor t)
    (read : Condition.ofRule? rule = some t) :
    formulaOf (nested settings) (conditionOf (nested settings) rule) (decompose rule) =
      formulaOf (flat settings) (conditionOf (flat settings) rule) (decompose rule) := by
  have same := Formula.ofDecomposition_eq_ofCondition standsFor settings.binaryCalls
  simp only [formulaOf, conditionOf, nested, flat, read, Bool.false_eq_true, if_true, if_false,
    Formula.ofCondition?, same]

theorem consistencyOf_nested (settings : Settings) (standsFor : (decompose rule).StandsFor t)
    (read : Condition.ofRule? rule = some t) :
    consistencyOf (nested settings) (conditionOf (nested settings) rule) (decompose rule) =
      consistencyOf (flat settings) (conditionOf (flat settings) rule) (decompose rule) := by
  have same := Consistency.ofDecomposition_eq_ofCondition standsFor
  simp only [consistencyOf, conditionOf, nested, flat, read, Bool.false_eq_true, if_true, if_false,
    standsFor.recognised, same]

theorem ofRule_nested (settings : Settings) (catalog : Catalog) (source : Text)
    (standsFor : (decompose rule).StandsFor t) (read : Condition.ofRule? rule = some t) :
    ofRule (nested settings) catalog source rule = ofRule (flat settings) catalog source rule := by
  unfold ofRule
  simp only [formulaOf_nested settings standsFor read, consistencyOf_nested settings standsFor read]
  rfl

theorem consistencyOf_off {settings : Settings} (off : settings.checkConsistency = false)
    (t : Option Condition) (d : Decomposition) : consistencyOf settings t d = .ok none := by
  simp [consistencyOf, off]

/-- Only the consistency check can fail. -/
theorem ofRule_flat_error {settings : Settings} {catalog : Catalog} {source : Text}
    {e : ConversionError} (h : ofRule (flat settings) catalog source rule = .error e) :
    settings.checkConsistency = true ∧ ∃ cause, e = .consistency cause := by
  obtain ⟨f, formula⟩ := Formula.exists_ofDecomposition settings.binaryCalls (decompose rule)
  have formula' : formulaOf (flat settings) (conditionOf (flat settings) rule) (decompose rule) =
      .ok f := formula
  simp only [ofRule, formula'] at h
  cases check : consistencyOf (flat settings) (conditionOf (flat settings) rule)
      (decompose rule) with
  | ok consistency =>
    rw [check] at h
    cases h
  | error cause =>
    rw [check] at h
    cases h
    refine ⟨?_, cause, rfl⟩
    cases on : settings.checkConsistency with
    | true => rfl
    | false =>
      have off : (flat settings).checkConsistency = false := on
      rw [consistencyOf_off off] at check
      cases check

end Conversion

open Conversion in
/-- Nested conditions extend flat rules. Whatever is recognised as a flat rule is read as its
condition, and its conversion does not depend on whether conditions are nested; it is there
unless the consistency check fails. -/
theorem convert_nested_eq_flat :
    (∀ rule, (decompose rule).failed = false →
      ∃ t, (decompose rule).StandsFor t ∧ Condition.ofRule? rule = some t) ∧
    ∀ (settings : Settings) (catalog : Catalog) (source : Text),
      (∀ root ∈ catalog.roots, Text.backslash ∉ root) →
        ∃ rule, normalize catalog.toList source = .ok rule ∧ ((decompose rule).failed = false →
          convert { settings with nested := true } catalog source =
              convert { settings with nested := false } catalog source ∧
            ∀ e, convert { settings with nested := false } catalog source = .error e →
              settings.checkConsistency = true ∧ ∃ cause, e = .consistency cause) := by
  refine ⟨fun rule recognised => Decomposition.exists_standsFor recognised,
    fun settings catalog source plain => ?_⟩
  obtain ⟨rule, normalized⟩ := exists_normalize plain source
  refine ⟨rule, normalized, fun recognised => ?_⟩
  obtain ⟨t, standsFor, read⟩ := Decomposition.exists_standsFor recognised
  unfold convert
  rw [normalized]
  cases blank : Text.blankOnly source with
  | true => exact ⟨rfl, nofun⟩
  | false =>
    exact ⟨ofRule_nested settings catalog source standsFor read, fun e => ofRule_flat_error⟩

theorem convert_conjunction_eq :
    (decompose "#progressField >= 5 && #progressField<9".toList).failed = false ∧
      (Condition.ofRule? "#progressField >= 5 && #progressField<9".toList).isSome ∧
      convert { Settings.default with nested := true } Catalog.default
          "progressField >= 5 and progressField<9".toList =
        convert { Settings.default with nested := false } Catalog.default
          "progressField >= 5 and progressField<9".toList := by
  have recognised :
      (decompose "#progressField >= 5 && #progressField<9".toList).failed = false := by
    decide +kernel
  have computed : (normalize Catalog.default.toList
      "progressField >= 5 and progressField<9".toList).toOption =
        some "#progressField >= 5 && #progressField<9".toList := by
    decide +kernel
  obtain ⟨t, -, read⟩ := convert_nested_eq_flat.1 _ recognised
  obtain ⟨rule, normalized, same⟩ := convert_nested_eq_flat.2 Settings.default Catalog.default
    "progressField >= 5 and progressField<9".toList (by decide +kernel)
  rw [normalized] at computed
  cases Option.some.inj computed
  exact ⟨recognised, by rw [read]; rfl, (same recognised).1⟩

end ProgressRules

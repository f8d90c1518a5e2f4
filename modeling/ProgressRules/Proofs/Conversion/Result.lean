import ProgressRules.Proofs.Conversion.Totality

/-! What a conversion consists of, once there is one: the rule with its decomposition, the
warnings, and a formula only of a rule that is accepted. -/

namespace ProgressRules.Conversion

variable {settings : Settings} {catalog : Catalog} {source rule : Text} {c : Conversion}

structure IsAbout (settings : Settings) (catalog : Catalog) (rule : Text) (c : Conversion) :
    Prop where
  rule_eq : c.rule = rule
  decomposition : c.decomposition = decompose rule
  warnings : c.warnings = catalog.unknownReferences rule ++
    (if unsatisfiable c.consistency then [neverSatisfied] else [])
  accepted : c.convertible = true → ∃ t, Accepts settings rule t

theorem formulaOf_of_unaccepted (never : ∀ t, ¬Accepts settings rule t) :
    formulaOf settings (conditionOf settings rule) (decompose rule) = .ok none := by
  unfold Accepts at never
  unfold formulaOf conditionOf
  split
  · cases read : Condition.ofRule? rule with
    | none => rfl
    | some t => exact absurd read (by simpa [*] using never t)
  · cases failed : (decompose rule).failed with
    | true => rw [Formula.ofDecomposition, failed, if_pos rfl]
    | false =>
      obtain ⟨t, standsFor, -⟩ := Decomposition.exists_standsFor failed
      exact absurd standsFor (by simpa [*] using never t)

theorem isAbout_of_ofRule (h : ofRule settings catalog source rule = .ok c) :
    c.IsAbout settings catalog rule := by
  obtain ⟨f, formula⟩ := exists_formulaOf settings rule
  unfold ofRule at h
  simp only [formula] at h
  cases check : consistencyOf settings (conditionOf settings rule) (decompose rule) with
  | error e =>
    rw [check] at h
    cases h
  | ok k =>
    rw [check] at h
    cases h
    refine ⟨rfl, rfl, rfl, fun convertible => ?_⟩
    by_contra none
    rw [formulaOf_of_unaccepted (not_exists.1 none)] at formula
    cases formula
    cases convertible

theorem isAbout_of_convert (normalized : normalize catalog.toList source = .ok rule)
    (h : convert settings catalog source = .ok c) : c.IsAbout settings catalog rule := by
  unfold convert at h
  cases blank : Text.blankOnly source with
  | true =>
    rw [normalize, if_pos blank] at normalized
    rw [if_pos blank] at h
    cases normalized
    cases h
    exact ⟨rfl, rfl, rfl, fun convertible => absurd convertible Bool.false_ne_true⟩
  | false =>
    rw [normalized, if_neg (by simp [blank])] at h
    exact isAbout_of_ofRule h

theorem warnings_of_satisfiable {t : Condition} (accepted : Accepts settings rule t)
    (satisfiable : ∃ v : Text → ℝ,
      t.Holds (Constraint.HoldsByName Comparison.checkedThreshold v))
    (normalized : normalize catalog.toList source = .ok rule)
    (h : convert settings catalog source = .ok c) :
    c.warnings = catalog.unknownReferences rule := by
  rw [convert_eq_ofRule accepted normalized] at h
  cases on : settings.checkConsistency with
  | true =>
    rcases ofRule_warns accepted on catalog source with ⟨cause, failed, -⟩ |
      ⟨d, converted, -, -, warns⟩
    · rw [failed] at h
      cases h
    · rw [converted] at h
      cases h
      exact warns.1 satisfiable
  | false =>
    obtain ⟨f, formula⟩ := exists_formulaOf settings rule
    unfold ofRule at h
    simp only [formula, consistencyOf_off on] at h
    cases h
    exact List.append_nil _

end ProgressRules.Conversion

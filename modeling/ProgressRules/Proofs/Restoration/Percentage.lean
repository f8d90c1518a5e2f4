import ProgressRules.Proofs.Restoration.Fractions

/-! Percentages of typed thresholds. What is written for a numeral is a numeral again, and it is
left alone when it is rescaled once more. -/

namespace ProgressRules

open Text (IsRun)

namespace Percent

def shown (text : Text) : Text := (rescale text).toOption.getD text

theorem isRun_ofNat (n : Nat) : IsRun Text.isDigit (Text.ofNat n) :=
  ⟨Text.ofNat_ne_nil n, fun _ member => Text.isDigit_of_ascii (Text.isDigit_of_mem_ofNat member)⟩

theorem shown_of_no_point {text : Text} (h : '.' ∉ text) : shown text = text := by
  have none : text.contains '.' = false := by simpa using h
  rw [shown, rescale, none]
  rfl

/-- A numeral is read with its exact value, if it is read. -/
theorem read?_numeral {n : Numeral} (h : n.WellFormed) {l : Literal}
    (read : read? n.text = some l) : l = literalOf n := by
  rw [read?_threshold h.isThreshold] at read
  split at read
  · exact (Option.some.inj read).symm
  · cases read

theorem shown_of_one_lt {n : Numeral} (h : n.WellFormed) (above : n.denominator < n.numerator) :
    shown n.text = n.text := by
  by_cases point : '.' ∈ n.text
  · have some_point : n.text.contains '.' = true := by simpa using point
    rw [shown, rescale, some_point]
    cases read : read? n.text with
    | none => rfl
    | some l =>
      have exceeds : l.exceedsOne = true := by
        rw [read?_numeral h read]
        exact exceedsOne_literalOf.2 above
      simp [exceeds, Except.toOption]
  · exact shown_of_no_point point

theorem shown_numeral {n : Numeral} (h : n.WellFormed) :
    shown n.text = n.text ∨ ∃ k, shown n.text = Text.ofNat k := by
  by_cases point : '.' ∈ n.text
  · have some_point : n.text.contains '.' = true := by simpa using point
    rw [shown, rescale, some_point]
    cases read : read? n.text with
    | none => exact .inl rfl
    | some l =>
      cases exceeds : l.exceedsOne with
      | true =>
        left
        simp [exceeds, Except.toOption]
      | false =>
        cases value : l.hundredfold with
        | error e =>
          left
          simp [exceeds, value, Except.toOption, Except.map]
        | ok k =>
          right
          have unsigned : l.negative = false := by
            rw [read?_numeral h read]
            rfl
          refine ⟨k, ?_⟩
          simp [exceeds, value, unsigned, Except.toOption, Except.map, Binary64.signed]
  · exact .inl (shown_of_no_point point)

theorem shown_shown {n : Numeral} (h : n.WellFormed) : shown (shown n.text) = shown n.text := by
  rcases shown_numeral h with same | ⟨k, same⟩
  · rw [same, same]
  · have digits := isRun_ofNat k
    rw [same]
    refine shown_of_no_point fun point => ?_
    have digit := digits.2 _ point
    exact absurd digit (by decide)

end Percent

namespace Numeral

def rescaled (n : Numeral) : Numeral :=
  match read (Percent.shown n.text) with
  | some (m, []) => m
  | _ => n

theorem read_text {n : Numeral} (h : n.WellFormed) : read n.text = some (n, []) := by
  simpa using read_append h (Text.stops_nil _)

theorem read_shown {n : Numeral} (h : n.WellFormed) :
    read (Percent.shown n.text) = some (n.rescaled, []) := by
  have some_numeral : ∃ m, read (Percent.shown n.text) = some (m, []) := by
    rcases Percent.shown_numeral h with same | ⟨k, same⟩
    · exact ⟨n, by rw [same, read_text h]⟩
    · have whole : WellFormed ⟨Text.ofNat k, []⟩ := ⟨Percent.isRun_ofNat k, by simp⟩
      exact ⟨⟨Text.ofNat k, []⟩, by rw [same]; exact read_text whole⟩
  obtain ⟨m, found⟩ := some_numeral
  simp only [rescaled, found]

theorem WellFormed.rescaled {n : Numeral} (h : n.WellFormed) : n.rescaled.WellFormed :=
  (read_eq_some (read_shown h)).1

theorem text_rescaled {n : Numeral} (h : n.WellFormed) :
    n.rescaled.text = Percent.shown n.text := by
  simpa using (read_eq_some (read_shown h)).2.1.symm

theorem rescaled_rescaled {n : Numeral} (h : n.WellFormed) : n.rescaled.rescaled = n.rescaled := by
  have again := read_shown h.rescaled
  rw [text_rescaled h, Percent.shown_shown h, read_shown h] at again
  exact (Prod.mk.inj (Option.some.inj again)).1.symm

end Numeral

/-! ### Comparisons of the progress field -/

def Comparison.retyped (text : Text) (c : Comparison) : Comparison :=
  match Numeral.read text with
  | some (n, _) => { c with threshold := n.nearest, thresholdText := text }
  | none => c

def Comparison.rescaled (progressField : Text) (c : Comparison) : Comparison :=
  if c.reference = progressField then c.retyped (Percent.shown c.thresholdText) else c

namespace WrittenComparison

def rescaled (progressField : Text) (w : WrittenComparison) : WrittenComparison :=
  if w.reference.text = progressField then { w with number := w.number.rescaled } else w

variable {w : WrittenComparison} {progressField : Text}

theorem WellFormed.rescaled (h : w.WellFormed) : (w.rescaled progressField).WellFormed := by
  unfold WrittenComparison.rescaled
  split
  · exact ⟨h.reference, h.left, h.operator, h.right, h.number.rescaled⟩
  · exact h

theorem reference_rescaled : (w.rescaled progressField).reference = w.reference := by
  unfold rescaled
  split <;> rfl

theorem comparison_rescaled (h : w.WellFormed) :
    (w.rescaled progressField).comparison = w.comparison.rescaled progressField := by
  unfold rescaled Comparison.rescaled
  by_cases same : w.reference.text = progressField
  · have field : w.comparison.reference = progressField := same
    have read : Numeral.read (Percent.shown w.comparison.thresholdText) =
        some (w.number.rescaled, []) := Numeral.read_shown h.number
    have text : w.number.rescaled.text = Percent.shown w.comparison.thresholdText :=
      Numeral.text_rescaled h.number
    rw [if_pos same, if_pos field, Comparison.retyped, read, ← text]
    rfl
  · have field : w.comparison.reference ≠ progressField := same
    rw [if_neg same, if_neg field]

theorem rescaled_rescaled (h : w.WellFormed) :
    (w.rescaled progressField).rescaled progressField = w.rescaled progressField := by
  unfold rescaled
  by_cases same : w.reference.text = progressField
  · simp only [same, if_true, Numeral.rescaled_rescaled h.number]
  · simp only [same, if_false]

end WrittenComparison

end ProgressRules

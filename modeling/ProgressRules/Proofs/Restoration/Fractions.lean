import ProgressRules.Percent
import ProgressRules.Proofs.Comparison.Reading
import ProgressRules.Proofs.Text.Digits

/-! Texts of thresholds. A threshold of a stored rule may begin with its point; it is read with its
exact value, unless it has more places than a decimal literal may have, and it is told apart from
numbers above one. -/

namespace ProgressRules

open Text (IsRun Stops)

namespace Numeral

/-- There is a digit on at least one side of the point, and nothing but digits. -/
def IsThreshold (n : Numeral) : Prop := IsRun Text.isDigit (n.whole ++ n.fraction)

theorem WellFormed.isThreshold {n : Numeral} (h : n.WellFormed) : n.IsThreshold := by
  constructor
  · simp [h.whole.1]
  · intro c inside
    rcases List.mem_append.1 inside with whole | fraction
    · exact h.whole.2 c whole
    · exact h.fraction c fraction

variable {n : Numeral}

theorem IsThreshold.whole (h : n.IsThreshold) : ∀ c ∈ n.whole, Text.isDigit c = true :=
  fun c inside => h.2 c (List.mem_append_left _ inside)

theorem IsThreshold.fraction (h : n.IsThreshold) : ∀ c ∈ n.fraction, Text.isDigit c = true :=
  fun c inside => h.2 c (List.mem_append_right _ inside)

theorem IsThreshold.continuesNumber_of_mem (h : n.IsThreshold) {c : Char} (inside : c ∈ n.text) :
    continuesNumber c = true := by
  unfold text at inside
  split at inside
  · simp [continuesNumber, h.whole c inside]
  · rcases List.mem_append.1 inside with whole | fraction
    · simp [continuesNumber, h.whole c whole]
    · rcases List.mem_cons.1 fraction with rfl | fraction
      · rfl
      · simp [continuesNumber, h.fraction c fraction]

theorem IsThreshold.mem_point_iff (h : n.IsThreshold) : '.' ∈ n.text ↔ n.fraction ≠ [] := by
  unfold text
  split
  · rename_i none
    have digits : '.' ∉ n.whole := fun inside => absurd (h.whole '.' inside) (by decide)
    simp [digits, List.isEmpty_iff.1 none]
  · rename_i some
    simpa using some

end Numeral

theorem not_isBlank_of_continuesNumber {c : Char} (h : continuesNumber c = true) :
    Text.isBlank c = false := by
  simp only [continuesNumber, Bool.or_eq_true, beq_iff_eq] at h
  rcases h with digit | rfl
  · exact Text.not_isBlank_of_isDigit digit
  · decide

namespace Percent

/-! ### Literals -/

variable {n : Numeral}

theorem trim_threshold (h : n.IsThreshold) : Text.trim n.text = n.text := by
  have visible : ∀ c ∈ n.text, Text.isBlank c = false :=
    fun c inside => not_isBlank_of_continuesNumber (h.continuesNumber_of_mem inside)
  have starts : Stops Text.isBlank n.text := fun c first => visible c (List.mem_of_mem_head? first)
  have ends : Text.Ends n.text := fun c last => visible c (List.mem_of_getLast? last)
  simpa using Text.trim_gaps Text.blank_nil Text.blank_nil starts ends

theorem readSign_threshold (h : n.IsThreshold) :
    Binary64.readSign ((Text.trim n.text).filter (· != '_')) = (false, n.text) := by
  have absent : ∀ c ∈ ['_', '-', '+'], c ∉ n.text := by
    intro c sign inside
    have number := h.continuesNumber_of_mem inside
    have signs : ∀ c ∈ ['_', '-', '+'], continuesNumber c = false := by decide
    rw [signs c sign] at number
    cases number
  have kept : n.text.filter (· != '_') = n.text := by
    apply List.filter_eq_self.2
    intro c inside
    have other : c ≠ '_' := by
      rintro rfl
      exact absent '_' (by simp) inside
    simpa using other
  rw [trim_threshold h, kept]
  unfold Binary64.readSign
  split
  · rename_i same
    exact absurd (by simp [same]) (absent '-' (by simp))
  · rename_i same
    exact absurd (by simp [same]) (absent '+' (by simp))
  · rfl

def literalOf (n : Numeral) : Literal := ⟨false, n.numerator, -n.fraction.length⟩

theorem read?_threshold (h : n.IsThreshold) :
    read? n.text = if (literalOf n).isExpressible then some (literalOf n) else none := by
  have point : Stops Text.isDigit ('.' :: n.fraction) := Text.stops_cons.2 (by decide)
  unfold read?
  rw [readSign_threshold h, Numeral.text]
  by_cases whole : n.fraction = []
  · have nonempty : n.whole ≠ [] := by simpa [whole] using h.1
    have front := Text.takeWhile_append h.whole (Text.stops_nil _)
    have back := Text.dropWhile_append h.whole (Text.stops_nil _)
    rw [List.append_nil] at front back
    simp [whole, front, back, nonempty, Binary64.readExponent?, literalOf, Numeral.numerator]
  · have front := Text.takeWhile_append h.whole point
    have back := Text.dropWhile_append h.whole point
    have front' := Text.takeWhile_append h.fraction (Text.stops_nil _)
    have back' := Text.dropWhile_append h.fraction (Text.stops_nil _)
    rw [List.append_nil] at front' back'
    simp [whole, front, back, front', back', Binary64.readExponent?, literalOf, Numeral.numerator]
    rfl

/-- Thresholds of any practical length can be read. -/
theorem isExpressible_literalOf (h : n.IsThreshold) (short : n.text.length < 10 ^ 18) :
    (literalOf n).isExpressible = true := by
  have digits : (n.whole ++ n.fraction).length = n.whole.length + n.fraction.length :=
    List.length_append
  have parts : n.whole.length + n.fraction.length ≤ n.text.length := by
    unfold Numeral.text
    split
    · rename_i none
      simp [List.isEmpty_iff.1 none]
    · simp
  have some : 0 < n.whole.length + n.fraction.length := digits ▸ List.length_pos_iff.2 h.1
  have places : (Text.ofNat n.numerator).length ≤ n.whole.length + n.fraction.length :=
    (Nat.length_toDigits_le_iff (by decide) some).2 (digits ▸ Text.natValue_lt _)
  have place : (literalOf n).place = -n.fraction.length + (Text.ofNat n.numerator).length := rfl
  have exponent : (literalOf n).exponent = -n.fraction.length := rfl
  rw [Literal.isExpressible, place, exponent]
  simp only [Bool.and_eq_true, decide_eq_true_eq]
  omega

/-- Whether a number is above one is told by its place, or else by its digits. -/
theorem exceedsOne_literalOf :
    (literalOf n).exceedsOne = true ↔ n.denominator < n.numerator := by
  have place : (literalOf n).place = -n.fraction.length + (Text.ofNat n.numerator).length := rfl
  have denominator : Nat.pow 10 (- -(n.fraction.length : Int)).toNat = n.denominator := by
    rw [Int.neg_neg, Int.toNat_natCast]
    rfl
  rw [Literal.exceedsOne, place]
  simp only [literalOf, denominator, Bool.not_false, Bool.true_and, Bool.and_eq_true,
    Bool.or_eq_true, bne_iff_ne, beq_iff_eq, decide_eq_true_eq]
  constructor
  · rintro ⟨nonzero, high | ⟨-, above⟩⟩
    · have digits := Text.ten_pow_digits_le (Nat.pos_of_ne_zero nonzero)
      have long : n.fraction.length + 2 ≤ (Text.ofNat n.numerator).length := by omega
      have power := Nat.pow_le_pow_right (n := 10) (by decide) long
      rw [Nat.pow_add] at power
      have same : n.denominator = 10 ^ n.fraction.length := rfl
      have positive : 0 < 10 ^ n.fraction.length := Nat.pow_pos (by decide)
      omega
    · exact above
  · intro above
    have long : n.fraction.length < (Text.ofNat n.numerator).length := by
      apply Nat.lt_of_not_le
      intro short
      have digits := Text.lt_ten_pow_digits n.numerator
      have power := Nat.pow_le_pow_right (n := 10) (by decide) short
      have same : n.denominator = 10 ^ n.fraction.length := rfl
      omega
    refine ⟨by omega, ?_⟩
    rcases Nat.lt_or_ge (n.fraction.length + 1) (Text.ofNat n.numerator).length with more | less
    · left
      omega
    · right
      exact ⟨by omega, above⟩

end Percent

end ProgressRules

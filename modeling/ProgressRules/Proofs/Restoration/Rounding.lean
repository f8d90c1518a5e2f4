import Mathlib.Algebra.Order.Floor.Semifield
import Mathlib.Data.Rat.Floor
import Mathlib.Tactic.FieldSimp
import ProgressRules.Proofs.Binary64.RoundTrip
import ProgressRules.Proofs.Formula.Progress
import ProgressRules.Proofs.Restoration.Fractions

/-! Percentages of fractions. One hundred times a fraction is rounded to 28 digits and then to an
integer. The second rounding takes a number for a half that the first one has raised to it; with
at most 28 digits there is no first rounding, and the percentage is the nearest integer. -/

namespace ProgressRules

/-! ### Two roundings -/

/-- A quotient that is rounded to an integer and then, a half upwards, to a multiple of an even
width. It comes out one step too high if it falls short of a half by half a unit at most. -/
theorem halfUp_nearestEven {n u h : Nat} (hu : 0 < u) (hh : 0 < h) (even : h % 2 = 0) {k : Nat}
    (nearest : (n + h * u) / (2 * (h * u)) = k) :
    (nearestEven n u + h) / (2 * h) =
      if 2 * ((2 * k + 1) * h * u) ≤ 2 * n + u then k + 1 else k := by
  have step : 0 < h * u := Nat.mul_pos hh hu
  have below : n < (2 * k + 1) * h * u := by
    have := Nat.lt_div_mul_add (a := n + h * u) (b := 2 * (h * u)) (by omega)
    rw [nearest] at this
    calc n < k * (2 * (h * u)) + 2 * (h * u) - h * u := by omega
      _ = (2 * k + 1) * h * u := by
        rw [show (2 * k + 1) * h * u = k * (2 * (h * u)) + h * u by ring]
        omega
  have above : k * (2 * (h * u)) ≤ n + h * u := by
    rw [← nearest]
    exact Nat.div_mul_le_self _ _
  have most : nearestEven n u ≤ (2 * k + 1) * h :=
    nearestEven_le_of_div_lt ((Nat.div_lt_iff_lt_mul hu).2 below)
  have least : k * (2 * h) ≤ nearestEven n u + h := by
    have quotient := div_le_nearestEven n u
    have multiple : k * (2 * h) - h ≤ n / u := by
      apply (Nat.le_div_iff_mul_le hu).2
      rw [Nat.sub_mul, show k * (2 * h) * u = k * (2 * (h * u)) by ring]
      omega
    omega
  have reached : (2 * k + 1) * h ≤ nearestEven n u ↔ 2 * ((2 * k + 1) * h * u) ≤ 2 * n + u := by
    apply le_nearestEven_iff hu
    rw [Nat.mul_mod, even, Nat.mul_zero, Nat.zero_mod]
  have odd : (2 * k + 1) * h = k * (2 * h) + h := by ring
  rw [odd] at most reached
  split_ifs with up
  · have := reached.2 (odd ▸ up)
    apply Nat.div_eq_of_lt_le
    · rw [Nat.add_mul]
      omega
    · rw [Nat.add_mul, Nat.add_mul]
      omega
  · have := mt reached.1 (odd ▸ up)
    apply Nat.div_eq_of_lt_le
    · omega
    · rw [Nat.add_mul]
      omega

namespace Percent

variable {n f k : Nat}

/-! ### Half a unit of the twenty-eighth digit -/

/-- The unit of the first digit of percentages like `k`, where zero has no digit. -/
def unitOf (k : Nat) : Nat := if k = 0 then 1 else if k < 10 then 10 else 100

/-- Percentages between `k` and the next half have no more digits than `k`. -/
theorem digits_le_unitOf (below : 200 * n < (2 * k + 1) * 10 ^ f) (positive : 0 < n)
    (fraction : n < 10 ^ f) : 100 * 10 ^ (Text.ofNat n).length ≤ unitOf k * 10 ^ f := by
  have digits := Text.ten_pow_digits_le positive
  generalize (Text.ofNat n).length = l at digits ⊢
  have compare : ∀ a, 10 ^ (l + a) < 10 ^ f → 10 ^ (l + a) * 10 ≤ 10 ^ f := by
    intro a less
    rw [← Nat.pow_succ]
    exact Nat.pow_le_pow_right (by decide) ((Nat.pow_lt_pow_iff_right (by decide)).1 less)
  unfold unitOf
  split_ifs with none one
  · subst none
    have := compare 1
    rw [Nat.pow_succ] at this
    omega
  · have few : (2 * k + 1) * 10 ^ f ≤ 19 * 10 ^ f := Nat.mul_le_mul_right _ (by omega)
    have := compare 0
    rw [Nat.add_zero] at this
    omega
  · rcases Nat.lt_or_ge f l with short | long
    · have := Nat.pow_le_pow_right (n := 10) (by decide) short
      rw [Nat.pow_succ] at this
      omega
    · exact Nat.mul_le_mul_left _ (Nat.pow_le_pow_right (by decide) long)

/-- Percentages that come close to a half behind `k` have no fewer digits than `k`. -/
theorem unitOf_le_digits
    (near : (2 * k + 1) * 10 ^ f * 10 ^ 28 ≤ 200 * n * 10 ^ 28 + unitOf k * 10 ^ f) :
    unitOf k * 10 ^ f ≤ 100 * 10 ^ (Text.ofNat n).length := by
  have digits := Text.lt_ten_pow_digits n
  generalize (Text.ofNat n).length = l at digits ⊢
  have compare : ∀ a, 10 ^ f < 10 ^ (l + a + 1) → 10 ^ f ≤ 10 ^ (l + a) := by
    intro a less
    apply Nat.pow_le_pow_right (by decide)
    exact Nat.lt_succ_iff.1 ((Nat.pow_lt_pow_iff_right (by decide)).1 less)
  unfold unitOf at near ⊢
  split_ifs at near ⊢ with none one
  · subst none
    have := compare 2
    simp only [Nat.pow_succ] at this
    omega
  · have some : 3 * 10 ^ f ≤ (2 * k + 1) * 10 ^ f := Nat.mul_le_mul_right _ (by omega)
    have := compare 1
    simp only [Nat.pow_succ] at this
    omega
  · have many : 21 * 10 ^ f ≤ (2 * k + 1) * 10 ^ f := Nat.mul_le_mul_right _ (by omega)
    have := compare 0
    simp only [Nat.pow_succ, Nat.add_zero] at this
    omega

/-- One hundred times a decimal with at most 28 digits is not raised to a half, and a longer one if
it falls short of it by half a unit of its twenty-eighth digit. -/
theorem raised_iff (below : 200 * n < (2 * k + 1) * 10 ^ f) (positive : 0 < n)
    (fraction : n ≤ 10 ^ f) :
    28 < (Text.ofNat n).length ∧
        (2 * k + 1) * 10 ^ f ≤ 200 * n + 100 * 10 ^ ((Text.ofNat n).length - 28) ↔
      (2 * k + 1) * 10 ^ f * 10 ^ 28 ≤ 200 * n * 10 ^ 28 + unitOf k * 10 ^ f := by
  have split : 28 ≤ (Text.ofNat n).length →
      10 ^ (Text.ofNat n).length = 10 ^ ((Text.ofNat n).length - 28) * 10 ^ 28 := by
    intro long
    rw [← Nat.pow_add, Nat.sub_add_cancel long]
  constructor
  · rintro ⟨long, near⟩
    have scaled := Nat.mul_le_mul_right (10 ^ 28) near
    rw [Nat.add_mul (200 * n), Nat.mul_assoc 100, ← split long.le] at scaled
    rcases fraction.lt_or_eq with less | one
    · have unit := digits_le_unitOf below positive less
      omega
    · -- one hundred is no less than half a step away from the next half
      exfalso
      have digits := Text.ten_pow_digits_le positive
      have next : 201 * 10 ^ f ≤ (2 * k + 1) * 10 ^ f := by
        rw [one] at below
        exact Nat.mul_le_mul_right _ (Nat.lt_of_mul_lt_mul_right below)
      omega
  · intro near
    have unit := unitOf_le_digits near
    rcases Nat.lt_or_ge 28 (Text.ofNat n).length with long | short
    · refine ⟨long, Nat.le_of_mul_le_mul_right ?_ (Nat.pow_pos (n := 28) (by decide : 0 < 10))⟩
      rw [split long.le] at unit
      rw [Nat.add_mul (200 * n), Nat.mul_assoc 100]
      omega
    · -- a half is a multiple of the unit of the last place
      exfalso
      have few := Nat.pow_le_pow_right (n := 10) (by decide) short
      rcases Nat.lt_or_ge f 3 with coarse | fine
      · have places := Nat.pow_le_pow_right (n := 10) (by decide) (Nat.lt_succ_iff.1 coarse)
        have small : unitOf k ≤ 100 := by
          unfold unitOf
          split_ifs <;> decide
        have := Nat.mul_le_mul small places
        omega
      · obtain ⟨more, rfl⟩ := Nat.exists_eq_add_of_le fine
        have multiple : (2 * k + 1) * 10 ^ (3 + more) = 200 * ((2 * k + 1) * (5 * 10 ^ more)) := by
          rw [Nat.pow_add]
          ring
        omega

/-! ### Percentages -/

def nearest (t : Rat) : Nat := ⌊100 * t + 1 / 2⌋₊

/-- Half a unit of the twenty-eighth digit of the numbers between `k` and `k + 1 / 2`. -/
def tolerance (k : Nat) : Rat := unitOf k * 5 / 10 ^ 29

/-- The nearest integer, except that a number is taken for a half that falls short of it by half a
unit of its twenty-eighth digit at most. -/
def rounded (t : Rat) : Nat :=
  if nearest t + 1 / 2 - 100 * t ≤ tolerance (nearest t) then nearest t + 1 else nearest t

theorem nearest_div (n f : Nat) :
    nearest (n / (10 ^ f : Nat)) = (200 * n + 10 ^ f) / (2 * 10 ^ f) := by
  have power : ((10 ^ f : Nat) : Rat) ≠ 0 := Nat.cast_ne_zero.2 (Nat.pow_pos (by decide)).ne'
  have same : 100 * ((n : Rat) / (10 ^ f : Nat)) + 1 / 2 =
      ((200 * n + 10 ^ f : Nat) : Rat) / ((2 * 10 ^ f : Nat) : Rat) := by
    push_cast at power ⊢
    field_simp
    ring
  rw [nearest, same, Nat.floor_div_eq_div]

theorem raised_div_iff (n f k : Nat) :
    (k : Rat) + 1 / 2 - 100 * (n / (10 ^ f : Nat)) ≤ tolerance k ↔
      (2 * k + 1) * 10 ^ f * 10 ^ 28 ≤ 200 * n * 10 ^ 28 + unitOf k * 10 ^ f := by
  have power : (0 : Rat) < (10 ^ f : Nat) := Nat.cast_pos.2 (Nat.pow_pos (by decide))
  have scale : (0 : Rat) < 2 * 10 ^ 28 * (10 ^ f : Nat) := by positivity
  have gap : ((k : Rat) + 1 / 2 - 100 * (n / (10 ^ f : Nat))) * (2 * 10 ^ 28 * (10 ^ f : Nat)) =
      ((2 * k + 1) * 10 ^ f * 10 ^ 28 : Nat) - (200 * n * 10 ^ 28 : Nat) := by
    push_cast at power ⊢
    field_simp
    ring
  have unit : tolerance k * (2 * 10 ^ 28 * (10 ^ f : Nat)) = (unitOf k * 10 ^ f : Nat) := by
    rw [tolerance]
    push_cast
    ring
  rw [← mul_le_mul_iff_left₀ scale, gap, unit, sub_le_iff_le_add']
  exact_mod_cast Iff.rfl

theorem rounded_div (same : (200 * n + 10 ^ f) / (2 * 10 ^ f) = k) :
    rounded (n / (10 ^ f : Nat)) =
      if (2 * k + 1) * 10 ^ f * 10 ^ 28 ≤ 200 * n * 10 ^ 28 + unitOf k * 10 ^ f then k + 1
      else k := by
  simp only [rounded, nearest_div, same, raised_div_iff]

/-- One hundred times a fraction lies below the half behind its percentage. -/
theorem lt_half (same : (200 * n + 10 ^ f) / (2 * 10 ^ f) = k) :
    200 * n < (2 * k + 1) * 10 ^ f := by
  have step : 0 < 2 * 10 ^ f := Nat.mul_pos (by decide) (Nat.pow_pos (by decide))
  have next := Nat.lt_div_mul_add (a := 200 * n + 10 ^ f) step
  have odd : (2 * k + 1) * 10 ^ f = k * (2 * 10 ^ f) + 10 ^ f := by ring
  rw [same] at next
  omega

theorem roundHalfUp_neg (digits places : Nat) :
    roundHalfUp digits (-places) = (2 * digits + 10 ^ places) / (2 * 10 ^ places) := by
  simp only [roundHalfUp, Int.neg_neg, Int.toNat_natCast, Int.toNat_neg_natCast, Nat.pow_eq,
    Nat.pow_zero, Nat.mul_one]

theorem roundHalfUp_short (some : 0 < f) (same : (200 * n + 10 ^ f) / (2 * 10 ^ f) = k) :
    roundHalfUp n (-f + 2) = k := by
  rcases Nat.lt_or_ge f 2 with one | more
  · obtain rfl : f = 1 := by omega
    have single : roundHalfUp n (-((1 : Nat) : Int) + 2) = (2 * (n * 10) + 1) / 2 := rfl
    omega
  · obtain ⟨places, rfl⟩ := Nat.exists_eq_add_of_le' more
    have exponent : -((places + 2 : Nat) : Int) + 2 = -(places : Nat) := by omega
    have hundred : 10 ^ (places + 2) = 100 * 10 ^ places := by ring
    have numerator : 200 * n + 100 * 10 ^ places = 100 * (2 * n + 10 ^ places) := by ring
    rw [exponent, roundHalfUp_neg, ← same, hundred, numerator, Nat.mul_left_comm 2,
      Nat.mul_div_mul_left _ _ (by decide)]

/-- A longer one is rounded to 28 digits first, so that a half is a multiple of what is kept. -/
theorem roundHalfUp_long {surplus more : Nat}
    (same : (200 * n + 10 ^ (surplus + more + 28)) / (2 * 10 ^ (surplus + more + 28)) = k) :
    roundHalfUp (nearestEven n (10 ^ (surplus + 1))) (-((more + 25 : Nat) : Int)) =
      if (2 * k + 1) * 10 ^ (surplus + more + 28) ≤ 200 * n + 100 * 10 ^ (surplus + 1) then k + 1
      else k := by
  have width : 10 ^ (more + 25) = 2 * (5 * 10 ^ (more + 24)) := by ring
  have positive : 0 < 5 * 10 ^ (more + 24) := Nat.mul_pos (by decide) (Nat.pow_pos (by decide))
  have even : 5 * 10 ^ (more + 24) % 2 = 0 := by
    rw [Nat.pow_succ]
    omega
  have places : 10 ^ (surplus + more + 28) =
      200 * (5 * 10 ^ (more + 24) * 10 ^ (surplus + 1)) := by ring
  rw [roundHalfUp_neg, width, places]
  rw [places] at same
  clear width places
  generalize 5 * 10 ^ (more + 24) = h at *
  have unit : 0 < 10 ^ (surplus + 1) := Nat.pow_pos (by decide)
  generalize 10 ^ (surplus + 1) = u at *
  have steps : (n + h * u) / (2 * (h * u)) = k := by
    have numerator : 200 * n + 200 * (h * u) = 200 * (n + h * u) := by ring
    have denominator : 2 * (200 * (h * u)) = 200 * (2 * (h * u)) := by ring
    rw [← same, numerator, denominator, Nat.mul_div_mul_left _ _ (by decide)]
  have numerator : 2 * nearestEven n u + 2 * h = 2 * (nearestEven n u + h) := by ring
  rw [numerator, Nat.mul_div_mul_left _ _ (by decide), halfUp_nearestEven unit positive even steps]
  have halves : (2 * k + 1) * (200 * (h * u)) = 200 * ((2 * k + 1) * h * u) := by ring
  rw [halves]
  apply if_congr _ rfl rfl
  omega

/-- The two roundings of one hundred times a fraction. -/
theorem roundHalfUp_nearestEven (positive : 0 < n) (some : 0 < f) (fraction : n ≤ 10 ^ f) :
    roundHalfUp (nearestEven n (10 ^ ((Text.ofNat n).length - 28)))
        (-f + 2 + ((Text.ofNat n).length - 28 : Nat)) = rounded (n / (10 ^ f : Nat)) := by
  generalize same : (200 * n + 10 ^ f) / (2 * 10 ^ f) = k
  have raised := raised_iff (lt_half same) positive fraction
  have places := Text.digits_le fraction
  rw [rounded_div same]
  generalize (Text.ofNat n).length = l at raised places ⊢
  rcases Nat.lt_or_ge 28 l with long | short
  · obtain ⟨surplus, rfl⟩ := Nat.exists_eq_add_of_lt long
    obtain ⟨more, rfl⟩ : ∃ more, f = surplus + more + 28 := ⟨f - surplus - 28, by omega⟩
    have kept : 28 + surplus + 1 - 28 = surplus + 1 := by omega
    have exponent : -((surplus + more + 28 : Nat) : Int) + 2 + (surplus + 1 : Nat) =
        -((more + 25 : Nat) : Int) := by omega
    rw [kept] at raised ⊢
    simp only [long, true_and] at raised
    rw [exponent, roundHalfUp_long same]
    exact if_congr raised rfl rfl
  · have kept : l - 28 = 0 := Nat.sub_eq_zero_of_le short
    have unraised := mt raised.2 fun h => absurd h.1 (Nat.not_lt.2 short)
    have whole : nearestEven n 1 = n := by
      apply nearestEven_eq (by decide) <;> omega
    rw [kept, if_neg unraised, Nat.pow_zero, whole]
    exact (congrArg (roundHalfUp n) (Int.add_zero _)).trans (roundHalfUp_short some same)

theorem rounded_of_small (small : 1000 * n ≤ 10 ^ f) : rounded (n / (10 ^ f : Nat)) = 0 := by
  have positive : 0 < 10 ^ f := Nat.pow_pos (by decide)
  have zero : (200 * n + 10 ^ f) / (2 * 10 ^ f) = 0 := Nat.div_eq_of_lt (by omega)
  rw [rounded_div zero, if_neg]
  simp only [unitOf, if_true]
  omega

/-! ### Order -/

theorem nearest_mono {t t' : Rat} (le : t ≤ t') : nearest t ≤ nearest t' := by
  apply Nat.floor_le_floor
  linarith

/-- How high a number is rounded depends on its value alone, and grows with it. -/
theorem rounded_mono {t t' : Rat} (le : t ≤ t') : rounded t ≤ rounded t' := by
  have order := nearest_mono le
  unfold rounded
  rcases order.lt_or_eq with less | same
  · split_ifs <;> omega
  · rw [same]
    split_ifs with raised raised'
    · exact Nat.le_refl _
    · exact absurd (by linarith) raised'
    · exact Nat.le_succ _
    · exact Nat.le_refl _

theorem rounded_one : rounded 1 = 100 := by
  have one := rounded_div (n := 1) (f := 0) (k := 100) (by decide)
  simpa [unitOf] using one

theorem rounded_le {t : Rat} (fraction : t ≤ 1) : rounded t ≤ 100 :=
  (rounded_mono fraction).trans_eq rounded_one

/-! ### Percentages of texts -/

theorem hundredfold_eq (some : 0 < f) (fraction : n ≤ 10 ^ f) :
    Literal.hundredfold ⟨false, n, -f⟩ = .ok (rounded (n / (10 ^ f : Nat))) := by
  have few := Text.digits_le fraction
  have power : (0 : Rat) < (10 ^ f : Nat) := Nat.cast_pos.2 (Nat.pow_pos (by decide))
  have value : (n : Rat) / (10 ^ f : Nat) ≤ 1 := by
    rw [div_le_one power]
    exact_mod_cast fraction
  have place : Literal.place ⟨false, n, -f⟩ = -f + (Text.ofNat n).length := rfl
  unfold Literal.hundredfold
  rw [place]
  split
  · rename_i tiny
    rw [rounded_of_small]
    simp only [Bool.or_eq_true, decide_eq_true_eq] at tiny
    rcases tiny with rfl | small
    · exact Nat.zero_le _
    · have digits := Text.lt_ten_pow_digits n
      have places : (Text.ofNat n).length + 3 ≤ f := by omega
      have more := Nat.pow_le_pow_right (n := 10) (by decide) places
      rw [Nat.pow_add] at more
      omega
  · rename_i large
    simp only [Bool.or_eq_true, decide_eq_true_eq, not_or] at large
    have positive : 0 < n := Nat.pos_of_ne_zero large.1
    have twice := roundHalfUp_nearestEven positive some fraction
    have most : nearestEven n (10 ^ ((Text.ofNat n).length - 28)) ≤ 10 ^ 28 := by
      apply nearestEven_le_of_div_lt
      apply (Nat.div_lt_iff_lt_mul (Nat.pow_pos (by decide))).2
      rw [← Nat.pow_add]
      exact (Text.lt_ten_pow_digits n).trans_le (Nat.pow_le_pow_right (by decide) (by omega))
    have digits := Text.digits_le most
    have digits' : (Text.ofNat (rounded (n / (10 ^ f : Nat)))).length ≤ 4 :=
      Text.digits_le ((rounded_le value).trans (by decide))
    simp only [roundDigits, Nat.pow_eq, twice]
    rw [if_neg (by omega), if_neg (by omega), if_pos (by omega)]

theorem value_le_one_iff {n : Numeral} : n.value ≤ 1 ↔ n.numerator ≤ n.denominator := by
  have power : (0 : Rat) < n.denominator := Nat.cast_pos.2 (Nat.pow_pos (by decide))
  rw [Numeral.value, div_le_one power]
  exact Nat.cast_le

variable {m : Numeral}

theorem rescale_threshold (h : m.IsThreshold) :
    rescale m.text =
      if '.' ∈ m.text then
        if (literalOf m).isExpressible = true then
          if m.value ≤ 1 then .ok (Text.ofNat (rounded m.value)) else .ok m.text
        else .error .invalid
      else .ok m.text := by
  unfold rescale
  by_cases point : '.' ∈ m.text
  · have some : m.fraction ≠ [] := h.mem_point_iff.1 point
    have inside : m.text.contains '.' = true := by simpa using point
    rw [inside, if_pos point, read?_threshold h]
    cases (literalOf m).isExpressible with
    | false => rfl
    | true =>
      by_cases fraction : m.numerator ≤ m.denominator
      · have within : (literalOf m).exceedsOne = false := by
          rw [Bool.eq_false_iff]
          exact fun exceeds => absurd fraction (Nat.not_le.2 (exceedsOne_literalOf.1 exceeds))
        have percentage : (literalOf m).hundredfold = .ok (rounded m.value) :=
          hundredfold_eq (List.length_pos_iff.2 some) fraction
        have unsigned : (literalOf m).negative = false := rfl
        simp [within, percentage, unsigned, value_le_one_iff.2 fraction, Except.map,
          Binary64.signed]
      · have exceeds := exceedsOne_literalOf.2 (Nat.lt_of_not_le fraction)
        simp [exceeds, mt value_le_one_iff.1 fraction]
  · have outside : m.text.contains '.' = false := by simpa using point
    rw [outside, if_neg point]
    rfl

theorem rounded_eq_nearest (fraction : m.value ≤ 1)
    (short : (Text.ofNat m.numerator).length ≤ 28) : rounded m.value = nearest m.value := by
  have within : m.numerator ≤ 10 ^ m.fraction.length := value_le_one_iff.1 fraction
  have value : m.value = m.numerator / (10 ^ m.fraction.length : Nat) := rfl
  have power : 0 < 10 ^ m.fraction.length := Nat.pow_pos (by decide)
  generalize same : (200 * m.numerator + 10 ^ m.fraction.length) /
    (2 * 10 ^ m.fraction.length) = k
  rcases Nat.eq_zero_or_pos m.numerator with zero | positive
  · have none : k = 0 := by
      rw [← same, zero]
      apply Nat.div_eq_of_lt
      omega
    rw [value, nearest_div, same, none]
    apply rounded_of_small
    omega
  · rw [value, rounded_div same, nearest_div, same, if_neg]
    intro raised
    exact absurd ((raised_iff (lt_half same) positive within).2 raised).1 (Nat.not_lt.2 short)

theorem rounded_eq_nearest_iff {t : Rat} :
    rounded t = nearest t ↔ tolerance (nearest t) < nearest t + 1 / 2 - 100 * t := by
  unfold rounded
  split
  · rename_i raised
    simp only [Nat.succ_ne_self, false_iff, not_lt]
    exact raised
  · rename_i unraised
    simp only [true_iff]
    exact not_le.1 unraised

/-- A threshold with a point that is at most one is written as its percentage, a number between
zero and one hundred that grows with the threshold; all others are left alone. The percentage is
the nearest integer, a half upwards, unless the threshold falls short of a half by no more than
the tolerance, which takes more than 28 digits. -/
theorem rescale_exact (h : m.IsThreshold) :
    rescale m.text =
      (if '.' ∈ m.text then
        if (literalOf m).isExpressible = true then
          if m.value ≤ 1 then .ok (Text.ofNat (rounded m.value)) else .ok m.text
        else .error .invalid
      else .ok m.text) ∧
    (m.text.length < 10 ^ 18 → (literalOf m).isExpressible = true) ∧
    (m.value ≤ 1 → rounded m.value ≤ 100) ∧
    (∀ t ≤ m.value, rounded t ≤ rounded m.value) ∧
    (rounded m.value = nearest m.value ↔
      tolerance (nearest m.value) < nearest m.value + 1 / 2 - 100 * m.value) ∧
    (m.value ≤ 1 → (Text.ofNat m.numerator).length ≤ 28 → rounded m.value = nearest m.value) := by
  refine ⟨rescale_threshold h, isExpressible_literalOf h, rounded_le, fun t => rounded_mono,
    rounded_eq_nearest_iff, rounded_eq_nearest⟩

theorem rescale_eighth : rescale "0.125".toList = .ok "13".toList := by
  have exact := rescale_exact (m := ⟨"0".toList, "125".toList⟩) ⟨by decide, by decide⟩
  have numerator : (⟨"0".toList, "125".toList⟩ : Numeral).numerator = 125 := by decide
  have value : (⟨"0".toList, "125".toList⟩ : Numeral).value = (125 : Nat) / (10 ^ 3 : Nat) := by
    rw [Numeral.value, numerator]
    rfl
  have fraction : ((125 : Nat) / (10 ^ 3 : Nat) : Rat) ≤ 1 := by norm_num
  obtain ⟨written, expressible, -, -, -, short⟩ := exact
  rw [value] at written short
  rw [if_pos (by decide), if_pos (expressible (by decide)), if_pos fraction,
    short fraction (by decide), nearest_div] at written
  exact written

/-- A little less than half a percent is raised to one. -/
theorem rescale_below_half :
    rescale "0.00499999999999999999999999999999999".toList = .ok "1".toList ∧
    nearest (⟨"0".toList, "00499999999999999999999999999999999".toList⟩ : Numeral).value = 0 := by
  constructor
  · decide +kernel
  · have numerator : (⟨"0".toList, "00499999999999999999999999999999999".toList⟩ :
        Numeral).numerator = 499999999999999999999999999999999 := by decide +kernel
    have value : (⟨"0".toList, "00499999999999999999999999999999999".toList⟩ : Numeral).value =
        (499999999999999999999999999999999 : Nat) / (10 ^ 35 : Nat) := by
      rw [Numeral.value, numerator]
      rfl
    rw [value, nearest_div]
    decide

end Percent

end ProgressRules

import Mathlib.Algebra.IsPrimePow
import Mathlib.Data.Nat.Prime.Basic
import Mathlib.Data.Rat.Lemmas
import ProgressRules.Proofs.Binary64.Shortest

/-! The shortest decimal of a magnitude is rounded to it again, as is every ratio in the interval
of the magnitude. -/

namespace ProgressRules

/-! ### Nearest integers -/

/-- At most a half away, and in the middle between two integers only if the nearer one is even. -/
theorem nearestEven_eq {n d s : Nat} (positive : 0 < d) (low : 2 * (s * d) ≤ 2 * n + d)
    (high : 2 * n ≤ 2 * (s * d) + d)
    (odd : s % 2 = 1 → 2 * (s * d) ≠ 2 * n + d ∧ 2 * n ≠ 2 * (s * d) + d) :
    nearestEven n d = s := by
  have split := Nat.div_add_mod' n d
  have remainder := Nat.mod_lt n positive
  have quotient : n / d = s ∨ n / d + 1 = s := by
    have below : n / d < s + 1 := by
      apply (Nat.div_lt_iff_lt_mul positive).2
      rw [Nat.add_mul]
      omega
    have above : s ≤ n / d + 1 := by
      apply Nat.le_of_not_lt
      intro far
      have wide := Nat.mul_le_mul_right d (Nat.succ_le_of_lt far)
      simp only [Nat.succ_eq_add_one, Nat.add_mul] at wide
      omega
    omega
  unfold nearestEven
  generalize n / d = q at split quotient ⊢
  rcases quotient with same | next
  · subst same
    split_ifs <;> omega
  · subst next
    simp only [Nat.add_mul] at low high odd
    split_ifs <;> omega

/-! ### Binades -/

theorem spareBits_eq {n k : Nat} (low : 0 < k → 2 ^ (52 + k) ≤ n) (high : n < 2 ^ (53 + k)) :
    spareBits n = k := by
  unfold spareBits
  rcases Nat.eq_zero_or_pos k with zero | positive
  · subst zero
    by_cases none : n = 0
    · simp [none]
    · have := (Nat.log2_lt none).2 high
      omega
  · have some : n ≠ 0 := (Nat.lt_of_lt_of_le (Nat.two_pow_pos _) (low positive)).ne'
    have := (Nat.log2_lt some).2 high
    have := (Nat.le_log2 some).2 (low positive)
    omega

theorem roundUnits_congr {a d a' d' : Nat} (hd : 0 < d) (hd' : 0 < d') (h : a * d' = a' * d) :
    roundUnits a d = roundUnits a' d' :=
  Nat.le_antisymm (roundUnits_mono hd hd' h.le) (roundUnits_mono hd' hd h.ge)

namespace Magnitude

variable {m : Magnitude} {a b : Nat}

/-- A ratio is rounded to a magnitude in whose interval it lies. The ends of the interval belong to
it if the significand is even. -/
theorem roundUnits_eq (positive : 0 < b) (low : m.lowerEnd * b ≤ 4 * a)
    (high : 4 * a ≤ m.upperEnd * b)
    (odd : m.evenSignificand = false → m.lowerEnd * b ≠ 4 * a ∧ 4 * a ≠ m.upperEnd * b) :
    roundUnits a b = m.units := by
  obtain ⟨s, units, bound, full⟩ := exists_significand m
  rw [Bool.eq_false_iff, ne_eq, evenSignificand_iff units] at odd
  rw [lowerEnd_eq units] at low odd
  rw [upperEnd_eq units] at high odd
  rw [units]
  generalize m.gapBits = g at full low high odd
  have gap : 0 < b * 2 ^ g := Nat.mul_pos positive (Nat.two_pow_pos g)
  have scaled : ∀ k, k * 2 ^ g * b = k * (b * 2 ^ g) := fun k => by ring
  simp only [scaled] at low high odd
  have below : a < 2 ^ (53 + g) * b := by
    have less : (s + 1) * (b * 2 ^ g) ≤ 2 ^ 53 * (b * 2 ^ g) := Nat.mul_le_mul_right _ bound
    calc a < (s + 1) * (b * 2 ^ g) := by
          simp only [Nat.add_mul, Nat.mul_assoc] at high ⊢
          omega
      _ ≤ 2 ^ 53 * (b * 2 ^ g) := less
      _ = 2 ^ (53 + g) * b := by ring
  by_cases narrow : (0 < g ∧ s = 2 ^ 52) ∧ a < s * (b * 2 ^ g)
  · -- in the binade below, where the gaps are half as long
    obtain ⟨⟨some, rfl⟩, before⟩ := narrow
    obtain ⟨k, rfl⟩ : ∃ k, g = k + 1 := ⟨g - 1, by omega⟩
    rw [if_pos ⟨some, rfl⟩] at low
    have double : b * 2 ^ (k + 1) = 2 * (b * 2 ^ k) := by ring
    rw [double] at low before
    have binade : spareBits (a / b) = k := by
      apply spareBits_eq
      · intro _
        apply (Nat.le_div_iff_mul_le positive).2
        have same : 2 ^ (52 + k) * b = 2 ^ 52 * (b * 2 ^ k) := by ring
        omega
      · apply (Nat.div_lt_iff_lt_mul positive).2
        have same : 2 ^ (53 + k) * b = 2 ^ 53 * (b * 2 ^ k) := by ring
        omega
    have nearest : nearestEven a (b * 2 ^ k) = 2 ^ 53 := by
      apply nearestEven_eq (Nat.mul_pos positive (Nat.two_pow_pos k))
      · omega
      · omega
      · intro odd
        exact absurd odd (by decide)
    rw [roundUnits, binade, Nat.pow_eq, nearest]
    ring
  · have least : 2 * (s * (b * 2 ^ g)) ≤ 2 * a + b * 2 ^ g := by
      by_cases before : a < s * (b * 2 ^ g)
      · rw [if_neg fun inside => narrow ⟨inside, before⟩, Nat.sub_mul] at low
        simp only [Nat.mul_assoc] at low ⊢
        omega
      · omega
    have binade : spareBits (a / b) = g := by
      apply spareBits_eq
      · intro some
        have significand := full some
        apply (Nat.le_div_iff_mul_le positive).2
        have same : 2 ^ (52 + g) * b = 2 ^ 52 * (b * 2 ^ g) := by ring
        have most := Nat.mul_le_mul_right (b * 2 ^ g) significand
        by_cases before : a < s * (b * 2 ^ g)
        · have more : 2 ^ 52 + 1 ≤ s := by
            have apart : s ≠ 2 ^ 52 := fun equal => narrow ⟨⟨some, equal⟩, before⟩
            omega
          have most := Nat.mul_le_mul_right (b * 2 ^ g) more
          rw [Nat.add_mul] at most
          omega
        · omega
      · exact (Nat.div_lt_iff_lt_mul positive).2 below
    have nearest : nearestEven a (b * 2 ^ g) = s := by
      apply nearestEven_eq gap least
      · simp only [Nat.add_mul, Nat.mul_assoc] at high
        omega
      · intro single
        have inside := odd (by omega)
        simp only [Nat.add_mul, Nat.mul_assoc] at inside
        constructor
        · by_cases before : a < s * (b * 2 ^ g)
          · rw [if_neg fun wide => narrow ⟨wide, before⟩, Nat.sub_mul] at inside
            simp only [Nat.mul_assoc] at inside
            omega
          · omega
        · omega
    rw [roundUnits, binade, Nat.pow_eq, nearest]

theorem units_lt (m : Magnitude) : m.units < unitsLimit := by
  obtain ⟨significand, exponent, bound, most, same⟩ := m.representable
  have limit : 2 ^ (53 + exponent) ≤ unitsLimit := Nat.pow_le_pow_right (by decide) (by omega)
  rw [same]
  calc significand * 2 ^ exponent < 2 ^ 53 * 2 ^ exponent :=
        Nat.mul_lt_mul_of_pos_right bound (Nat.two_pow_pos exponent)
    _ = 2 ^ (53 + exponent) := (Nat.pow_add 2 53 exponent).symm
    _ ≤ unitsLimit := limit

theorem roundUnits_units (m : Magnitude) : roundUnits m.units 1 = m.units := by
  rcases Nat.eq_zero_or_pos m.units with zero | positive
  · rw [zero, roundUnits_zero]
  · have low := lowerEnd_add_le positive
    have gap := Nat.two_pow_pos m.gapBits
    have high := m.lt_upperEnd
    apply roundUnits_eq (by decide) <;> omega

theorem roundUnits_shortest (m : Magnitude) :
    roundUnits (m.shortest.1 * Nat.pow 10 m.shortest.2 * unitsPerOne) gridPerOne = m.units := by
  obtain ⟨⟨low, high⟩, odd⟩ := covers_iff.1 (covers_shortestFrom m m.coarsestStep)
  have quarters : ∀ c step, gridPoint step c = 4 * (c * Nat.pow 10 step * unitsPerOne) := by
    intro c step
    simp only [gridPoint, quartersPerOne]
    ring
  simp only [quarters] at low high odd
  exact roundUnits_eq gridPerOne_pos low high odd

theorem shortestDecimal_zero (zero : m.units = 0) : m.shortestDecimal = 0 := by
  rw [shortestDecimal, if_pos zero]

theorem shortestDecimal_pos (some : m.units ≠ 0) : 0 < m.shortestDecimal := by
  have zero : Representable 0 := ⟨0, 0, by decide, by decide, rfl⟩
  have least : shortestDecimal ⟨0, zero⟩ < m.shortestDecimal :=
    shortestDecimal_lt (Nat.pos_of_ne_zero some)
  rwa [shortestDecimal_zero rfl] at least

theorem num_mul_gridPerOne {q : Rat} (some : m.units ≠ 0) (absolute : |q| = m.shortestDecimal) :
    q.num.natAbs * gridPerOne = m.shortest.1 * Nat.pow 10 m.shortest.2 * q.den := by
  have denominator : (q.den : Rat) ≠ 0 := Nat.cast_ne_zero.2 q.den_nz
  have grid : (gridPerOne : Rat) ≠ 0 := Nat.cast_ne_zero.2 gridPerOne_pos.ne'
  have parts : (q.num.natAbs : Rat) / q.den =
      (m.shortest.1 * Nat.pow 10 m.shortest.2 : Nat) / (gridPerOne : Nat) := by
    rw [shortestDecimal, if_neg some, Rat.mkRat_eq_div, Int.cast_natCast] at absolute
    rw [← absolute, Rat.abs_def, Rat.divInt_eq_div]
    rfl
  rw [div_eq_div_iff denominator grid] at parts
  exact_mod_cast parts

end Magnitude

namespace Binary64

/-- The same number. The sign of a zero does not count. -/
def SameNumber : Binary64 → Binary64 → Prop
  | .finite negative m, .finite negative' m' => m = m' ∧ (m.units = 0 ∨ negative = negative')
  | .infinite negative, .infinite negative' => negative = negative'
  | _, _ => False

instance : ∀ x y : Binary64, Decidable (x.SameNumber y)
  | .finite negative m, .finite negative' m' =>
    inferInstanceAs (Decidable (m = m' ∧ (m.units = 0 ∨ negative = negative')))
  | .infinite negative, .infinite negative' => inferInstanceAs (Decidable (negative = negative'))
  | .finite .., .infinite _ | .finite .., .nan | .infinite _, .finite .. | .infinite _, .nan
  | .nan, _ => isFalse id

variable {q : Rat} {negative : Bool} {m : Magnitude}

theorem sign_of_shortestDecimal? (decimal : (finite negative m).shortestDecimal? = some q) :
    |q| = m.shortestDecimal ∧ (m.units = 0 ∨ decide (q.num < 0) = negative) := by
  rw [shortestDecimal?, Option.some_inj] at decimal
  by_cases zero : m.units = 0
  · have none := Magnitude.shortestDecimal_zero zero
    rw [none, neg_zero, ite_self] at decimal
    rw [← decimal, none]
    exact ⟨abs_zero, .inl zero⟩
  · have positive := Magnitude.shortestDecimal_pos zero
    cases negative with
    | false =>
      rw [if_neg Bool.false_ne_true] at decimal
      rw [← decimal]
      exact ⟨abs_of_pos positive, .inr (by simpa using positive.le)⟩
    | true =>
      rw [if_pos rfl] at decimal
      rw [← decimal]
      exact ⟨(abs_neg _).trans (abs_of_pos positive), .inr (by simpa using positive)⟩

theorem roundUnits_of_shortestDecimal (absolute : |q| = m.shortestDecimal) :
    roundUnits (q.num.natAbs * unitsPerOne) q.den = m.units := by
  by_cases zero : m.units = 0
  · have none : |q| = 0 := absolute.trans (Magnitude.shortestDecimal_zero zero)
    rw [abs_eq_zero.1 none, Rat.num_zero, Int.natAbs_zero, Nat.zero_mul, roundUnits_zero, zero]
  · have crossed := Magnitude.num_mul_gridPerOne zero absolute
    refine (roundUnits_congr q.den_pos Magnitude.gridPerOne_pos ?_).trans m.roundUnits_shortest
    rw [Nat.mul_right_comm, crossed, Nat.mul_right_comm]

theorem ofRatio_eq {n d : Nat} (nearest : roundUnits (n * unitsPerOne) d = m.units) :
    ofRatio negative n d = .finite negative m := by
  rw [ofRatio, dif_pos (nearest.trans_lt m.units_lt)]
  exact congrArg _ (Magnitude.eq_of_units nearest)

end Binary64

/-! ### Exact integers -/

def IsExact (n : Nat) : Prop := Representable (n * unitsPerOne)

theorem isExact_of_lt {s k : Nat} (significand : s < 2 ^ 53) (exponent : k ≤ 971) :
    IsExact (s * 2 ^ k) := by
  refine ⟨s, k + 1074, significand, by omega, ?_⟩
  rw [Nat.mul_assoc, unitsPerOne, Nat.pow_eq, Nat.pow_eq, Nat.pow_add]

/-- Divisors of the powers of ten up to the twenty-second are exact. -/
theorem isExact_of_dvd_ten_pow {d f : Nat} (places : f ≤ 22) (divides : d ∣ 10 ^ f) :
    IsExact d := by
  have split : 10 ^ f = 2 ^ f * 5 ^ f := by rw [← Nat.mul_pow]
  obtain ⟨a, b, twos, fives, rfl⟩ := Nat.dvd_mul.1 (split ▸ divides)
  obtain ⟨i, le, rfl⟩ := (Nat.dvd_prime_pow Nat.prime_two).1 twos
  obtain ⟨j, le', rfl⟩ := (Nat.dvd_prime_pow Nat.prime_five).1 fives
  rw [Nat.mul_comm]
  apply isExact_of_lt _ (by omega)
  calc 5 ^ j ≤ 5 ^ 22 := Nat.pow_le_pow_right (by decide) (by omega)
    _ < 2 ^ 53 := by decide

theorem isExact_one : IsExact 1 := isExact_of_lt (s := 1) (k := 0) (by decide) (by decide)

end ProgressRules

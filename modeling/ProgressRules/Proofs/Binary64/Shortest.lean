import Mathlib.Algebra.Order.Field.Rat
import ProgressRules.Consistency.Constraint
import ProgressRules.Proofs.Binary64.Rounding

/-! The shortest decimal of a magnitude lies in the interval of values that round to it. The
intervals of two magnitudes do not overlap, and where they touch the end belongs to at most one
of them, so that shortest decimals are in the order of their magnitudes. -/

namespace ProgressRules

namespace Magnitude

/-! ### Intervals -/

/-- A magnitude is a significand with at most 53 bits, and with no less if bits are spared. -/
theorem exists_significand (m : Magnitude) : ∃ s, m.units = s * 2 ^ m.gapBits ∧ s < 2 ^ 53 ∧
    (0 < m.gapBits → 2 ^ 52 ≤ s) := by
  obtain ⟨significand, exponent, bound, -, same⟩ := m.representable
  have below : m.units < 2 ^ 53 * 2 ^ m.gapBits := by
    rw [← Nat.pow_add]
    exact lt_two_pow_spareBits m.units
  rcases Nat.eq_zero_or_pos m.gapBits with zero | spared
  · rw [zero] at below ⊢
    exact ⟨m.units, by simp, by simpa using below, fun h => absurd h (by simp)⟩
  · have above : 2 ^ 52 * 2 ^ m.gapBits ≤ m.units := by
      rw [← Nat.pow_add]
      exact two_pow_spareBits_le spared
    have coarse : m.gapBits ≤ exponent := by
      by_contra fine
      have small : m.units < 2 ^ 52 * 2 ^ m.gapBits := by
        calc m.units = significand * 2 ^ exponent := same
          _ < 2 ^ 53 * 2 ^ exponent := Nat.mul_lt_mul_of_pos_right bound (Nat.two_pow_pos _)
          _ = 2 ^ 52 * 2 ^ (exponent + 1) := by ring
          _ ≤ 2 ^ 52 * 2 ^ m.gapBits :=
            Nat.mul_le_mul_left _ (Nat.pow_le_pow_right (by decide) (by omega))
      omega
    have split : m.units = significand * 2 ^ (exponent - m.gapBits) * 2 ^ m.gapBits := by
      rw [Nat.mul_assoc, ← Nat.pow_add, Nat.sub_add_cancel coarse]
      exact same
    rw [split] at below above
    exact ⟨_, split, Nat.lt_of_mul_lt_mul_right below,
      fun _ => Nat.le_of_mul_le_mul_right above (Nat.two_pow_pos _)⟩

variable {m m' : Magnitude} {s : Nat}

theorem upperEnd_eq (units : m.units = s * 2 ^ m.gapBits) :
    m.upperEnd = (4 * s + 2) * 2 ^ m.gapBits := by
  rw [upperEnd, units, Nat.pow_eq]
  ring

theorem lowerEnd_eq (units : m.units = s * 2 ^ m.gapBits) :
    m.lowerEnd = (4 * s - if 0 < m.gapBits ∧ s = 2 ^ 52 then 1 else 2) * 2 ^ m.gapBits := by
  have narrow : m.narrowBelow = true ↔ 0 < m.gapBits ∧ s = 2 ^ 52 := by
    rw [narrowBelow, Bool.and_eq_true, decide_eq_true_eq, beq_iff_eq, units, Nat.pow_eq,
      Nat.pow_add]
    exact and_congr_right fun _ => Nat.mul_left_inj (Nat.two_pow_pos _).ne'
  rw [lowerEnd, units, Nat.sub_mul, Nat.mul_assoc]
  congr 1
  by_cases h : m.narrowBelow = true
  · rw [if_pos h, if_pos (narrow.1 h), Nat.one_mul]
    rfl
  · rw [if_neg h, if_neg (mt narrow.2 h)]
    rfl

theorem evenSignificand_iff (units : m.units = s * 2 ^ m.gapBits) :
    m.evenSignificand = true ↔ s % 2 = 0 := by
  rw [evenSignificand, beq_iff_eq, units, Nat.pow_eq, Nat.mul_div_cancel _ (Nat.two_pow_pos _)]

/-- The interval of the smaller magnitude ends before the other one begins, or where it begins if
one of the significands is odd. -/
theorem upperEnd_le_lowerEnd (h : m.units < m'.units) : m.upperEnd ≤ m'.lowerEnd ∧
    (m.upperEnd = m'.lowerEnd → m.evenSignificand = false ∨ m'.evenSignificand = false) := by
  obtain ⟨s, units, bound, -⟩ := exists_significand m
  obtain ⟨s', units', -, full⟩ := exists_significand m'
  have gaps : m.gapBits ≤ m'.gapBits := spareBits_mono h.le
  rw [Bool.eq_false_iff, Bool.eq_false_iff, ne_eq, ne_eq, evenSignificand_iff units,
    evenSignificand_iff units', upperEnd_eq units, lowerEnd_eq units']
  rw [units, units'] at h
  rcases gaps.eq_or_lt with same | wider
  · -- one binade: the next significand is odd if this one is even
    rw [same] at h ⊢
    have less : s < s' := Nat.lt_of_mul_lt_mul_right h
    refine ⟨Nat.mul_le_mul_right _ (by split <;> omega), fun touch => ?_⟩
    have touch := Nat.eq_of_mul_eq_mul_right (Nat.two_pow_pos _) touch
    split at touch <;> omega
  · -- a wider binade begins behind the last significand of this one, which is odd
    have atLeast := full (by omega)
    have double : 2 * 2 ^ m.gapBits ≤ 2 ^ m'.gapBits := by
      rw [← Nat.pow_succ']
      exact Nat.pow_le_pow_right (by decide) wider
    have ends : 4 * s + 2 ≤ 2 * (4 * s' - if 0 < m'.gapBits ∧ s' = 2 ^ 52 then 1 else 2) ∧
        (2 * (4 * s' - if 0 < m'.gapBits ∧ s' = 2 ^ 52 then 1 else 2) ≤ 4 * s + 2 →
          s % 2 = 1) := by
      split <;> omega
    generalize 4 * s' - (if 0 < m'.gapBits ∧ s' = 2 ^ 52 then 1 else 2) = lower at ends ⊢
    have widened : 2 * lower * 2 ^ m.gapBits ≤ lower * 2 ^ m'.gapBits := by
      calc 2 * lower * 2 ^ m.gapBits = lower * (2 * 2 ^ m.gapBits) := by ring
        _ ≤ lower * 2 ^ m'.gapBits := Nat.mul_le_mul_left lower double
    refine ⟨(Nat.mul_le_mul_right _ ends.1).trans widened, fun touch => .inl ?_⟩
    have odd := ends.2 (Nat.le_of_mul_le_mul_right (touch ▸ widened) (Nat.two_pow_pos _))
    omega

/-! ### Covered points -/

theorem covers_iff {step c : Nat} : m.covers step c = true ↔
    (m.lowerEnd * gridPerOne ≤ gridPoint step c ∧ gridPoint step c ≤ m.upperEnd * gridPerOne) ∧
      (m.evenSignificand = false → m.lowerEnd * gridPerOne ≠ gridPoint step c ∧
        gridPoint step c ≠ m.upperEnd * gridPerOne) := by
  unfold covers
  cases m.evenSignificand with
  | true => simp
  | false => simp [Nat.lt_iff_le_and_ne, and_and_and_comm]

theorem gridPerOne_pos : 0 < gridPerOne := by decide +kernel

/-- The points that round to a magnitude lie before those that round to a greater one. -/
theorem gridPoint_lt_of_covers {step c step' c' : Nat} (h : m.units < m'.units)
    (covered : m.covers step c = true) (covered' : m'.covers step' c' = true) :
    gridPoint step c < gridPoint step' c' := by
  obtain ⟨apart, ends⟩ := upperEnd_le_lowerEnd h
  obtain ⟨⟨-, upper⟩, inside⟩ := covers_iff.1 covered
  obtain ⟨⟨lower, -⟩, inside'⟩ := covers_iff.1 covered'
  have scaled := Nat.mul_le_mul_right gridPerOne apart
  refine Nat.lt_of_le_of_ne (upper.trans (scaled.trans lower)) fun same => ?_
  have touch : m.upperEnd = m'.lowerEnd :=
    Nat.eq_of_mul_eq_mul_right gridPerOne_pos (by omega)
  rcases ends touch with odd | odd
  · exact (inside odd).2 (by omega)
  · exact (inside' odd).1 (by omega)

/-! ### The shortest decimal is covered -/

theorem gridNearest_eq_or (m : Magnitude) (step : Nat) :
    m.gridNearest step = m.gridFloor step ∨ m.gridNearest step = m.gridFloor step + 1 := by
  unfold gridNearest gridFloor
  generalize 4 * m.units * gridPerOne = value
  generalize Nat.pow 10 step * quartersPerOne = width
  have lower := div_le_nearestEven value width
  have upper := nearestEven_le_succ value width
  omega

theorem covers_of_onGrid? {step c : Nat} (found : m.onGrid? step = some c) :
    m.covers step c = true := by
  unfold onGrid? at found
  dsimp only at found
  split at found
  · rename_i below above
    rw [← Option.some.inj found]
    rcases m.gridNearest_eq_or step with same | same
    · rw [same]
      exact below
    · rw [same]
      exact above
  · rename_i below _
    rw [← Option.some.inj found]
    exact below
  · rename_i _ above
    rw [← Option.some.inj found]
    exact above
  · exact absurd found nofun

theorem two_pow_gapBits_le (positive : 0 < m.units) : 2 ^ m.gapBits ≤ 4 * m.units := by
  obtain ⟨s, units, -⟩ := exists_significand m
  have significand : 1 ≤ s := by
    refine Nat.pos_of_ne_zero fun zero => positive.ne' ?_
    rw [units, zero, Nat.zero_mul]
  have least := Nat.mul_le_mul_right (2 ^ m.gapBits) significand
  rw [Nat.one_mul, ← units] at least
  omega

theorem lowerEnd_add_le (positive : 0 < m.units) :
    m.lowerEnd + 2 ^ m.gapBits ≤ 4 * m.units := by
  have inside := two_pow_gapBits_le positive
  unfold lowerEnd
  rw [Nat.pow_eq]
  split <;> omega

theorem lt_upperEnd (m : Magnitude) : 4 * m.units < m.upperEnd :=
  Nat.lt_add_of_pos_right (Nat.mul_pos (by decide) (Nat.two_pow_pos _))

/-- The steps of the grid are no longer than a fourth of the gap above a magnitude. -/
def FineGrid (units step : Nat) : Prop :=
  Nat.pow 10 step * quartersPerOne ≤ 2 ^ spareBits units * gridPerOne

theorem FineGrid.mono {units more step : Nat} (h : FineGrid units step) (le : units ≤ more) :
    FineGrid more step := by
  have gap : 2 ^ spareBits units ≤ 2 ^ spareBits more :=
    Nat.pow_le_pow_right (by decide) (spareBits_mono le)
  exact Nat.le_trans h (Nat.mul_le_mul_right gridPerOne gap)

theorem covers_gridFloor_of_fine {step : Nat} (positive : 0 < m.units) (fine : FineGrid m.units step) :
    m.covers step (m.gridFloor step) = true := by
  have positive_width : 0 < Nat.pow 10 step * quartersPerOne :=
    Nat.mul_pos (Nat.pow_pos (by decide)) (by decide +kernel)
  have last : gridPoint step (m.gridFloor step) = 4 * m.units * gridPerOne /
      (Nat.pow 10 step * quartersPerOne) * (Nat.pow 10 step * quartersPerOne) :=
    Nat.mul_assoc _ _ _
  have above := Nat.mul_lt_mul_of_pos_right m.lt_upperEnd gridPerOne_pos
  have low := Nat.mul_le_mul_right gridPerOne (lowerEnd_add_le positive)
  rw [Nat.add_mul] at low
  have fine : Nat.pow 10 step * quartersPerOne ≤ 2 ^ m.gapBits * gridPerOne := fine
  rw [covers_iff, last]
  generalize 4 * m.units * gridPerOne = value at above low ⊢
  generalize Nat.pow 10 step * quartersPerOne = width at *
  have floor_le := Nat.div_mul_le_self value width
  have lt_floor := Nat.lt_div_mul_add (a := value) positive_width
  generalize 2 ^ m.gapBits * gridPerOne = gap at *
  generalize m.lowerEnd * gridPerOne = lower at *
  generalize m.upperEnd * gridPerOne = upper at *
  omega

theorem fineGrid_zero (units : Nat) : FineGrid units 0 := by
  have fine : quartersPerOne ≤ gridPerOne := by decide +kernel
  rw [FineGrid, Nat.pow_eq, Nat.pow_zero, Nat.one_mul]
  exact fine.trans (Nat.le_mul_of_pos_left gridPerOne (Nat.two_pow_pos _))

theorem covers_gridFloor (m : Magnitude) : m.covers 0 (m.gridFloor 0) = true := by
  rcases Nat.eq_zero_or_pos m.units with zero | positive
  · have even : m.evenSignificand = true := by simp [evenSignificand, zero]
    have low : m.lowerEnd = 0 := by simp [lowerEnd, zero]
    have none : gridPoint 0 (m.gridFloor 0) = 0 := by simp [gridPoint, gridFloor, zero]
    rw [covers_iff, even, low, none, Nat.zero_mul]
    exact ⟨⟨Nat.le_refl 0, Nat.zero_le _⟩, nofun⟩
  · exact covers_gridFloor_of_fine positive (fineGrid_zero m.units)

theorem exists_onGrid? {step : Nat} (covered : m.covers step (m.gridFloor step) = true) :
    ∃ c, m.onGrid? step = some c := by
  unfold onGrid?
  dsimp only
  rw [covered]
  cases m.covers step (m.gridFloor step + 1) with
  | true => exact ⟨_, rfl⟩
  | false => exact ⟨_, rfl⟩

theorem covers_shortestFrom (m : Magnitude) (step : Nat) :
    m.covers (m.shortestFrom step).2 (m.shortestFrom step).1 = true := by
  induction step with
  | zero =>
    obtain ⟨c, found⟩ := exists_onGrid? m.covers_gridFloor
    rw [shortestFrom, found]
    exact covers_of_onGrid? found
  | succ step ih =>
    rw [shortestFrom]
    split
    · exact covers_of_onGrid? ‹_›
    · exact ih

/-! ### Digits of the shortest decimal -/

theorem le_shortestFrom {step start : Nat} (le : step ≤ start)
    (covered : m.covers step (m.gridFloor step) = true) : step ≤ (m.shortestFrom start).2 := by
  induction start with
  | zero => exact le.trans (Nat.zero_le _)
  | succ start ih =>
    rw [shortestFrom]
    split
    · exact le
    · rename_i none
      refine ih (Nat.lt_succ_iff.1 (le.lt_of_ne fun same => ?_))
      obtain ⟨c, found⟩ := exists_onGrid? covered
      rw [same, none] at found
      cases found

theorem le_coarsestStep {step : Nat} (fine : FineGrid m.units step) : step ≤ m.coarsestStep := by
  have eight : 2 ^ (step * 3) ≤ Nat.pow 10 step := by
    rw [Nat.mul_comm, Nat.pow_mul]
    exact Nat.pow_le_pow_left (by decide) step
  have gap : 2 ^ m.gapBits ≤ m.upperEnd := by
    unfold upperEnd
    rw [Nat.pow_eq]
    omega
  have point : 2 ^ (step * 3) ≤ m.upperEnd * gridPerOne / quartersPerOne := by
    refine (Nat.le_div_iff_mul_le (by decide +kernel)).2 ?_
    calc 2 ^ (step * 3) * quartersPerOne ≤ Nat.pow 10 step * quartersPerOne :=
          Nat.mul_le_mul_right _ eight
      _ ≤ 2 ^ m.gapBits * gridPerOne := fine
      _ ≤ m.upperEnd * gridPerOne := Nat.mul_le_mul_right _ gap
  have some : m.upperEnd * gridPerOne / quartersPerOne ≠ 0 :=
    (Nat.lt_of_lt_of_le (Nat.two_pow_pos _) point).ne'
  exact (Nat.le_div_iff_mul_le (by decide)).2 ((Nat.le_log2 some).2 point)

theorem exists_shortestDecimal {step points : Nat} (fine : FineGrid m.units step)
    (grid : gridPerOne = points * Nat.pow 10 step) :
    ∃ digits : Nat, m.shortestDecimal = digits / points := by
  rw [shortestDecimal]
  split
  · exact ⟨0, by simp⟩
  · have coarse : step ≤ m.shortest.2 := le_shortestFrom (le_coarsestStep fine)
      (covers_gridFloor_of_fine (Nat.pos_of_ne_zero ‹_›) fine)
    have digits : m.shortest.1 * Nat.pow 10 m.shortest.2 =
        m.shortest.1 * Nat.pow 10 (m.shortest.2 - step) * Nat.pow 10 step := by
      simp only [Nat.pow_eq]
      rw [Nat.mul_assoc, ← Nat.pow_add, Nat.sub_add_cancel coarse]
    have power : ((Nat.pow 10 step : Nat) : Rat) ≠ 0 :=
      Nat.cast_ne_zero.2 (Nat.pow_pos (by decide)).ne'
    refine ⟨m.shortest.1 * Nat.pow 10 (m.shortest.2 - step), ?_⟩
    rw [Rat.mkRat_eq_div, Int.cast_natCast, grid, digits, Nat.cast_mul, Nat.cast_mul points]
    exact mul_div_mul_right _ _ power

/-! ### Order -/

theorem mkRat_lt {a b d : Nat} (positive : 0 < d) (h : a < b) : mkRat a d < mkRat b d := by
  have denominator : (0 : Rat) < d := Nat.cast_pos.2 positive
  rw [Rat.mkRat_eq_div, Rat.mkRat_eq_div]
  exact div_lt_div_of_pos_right (by exact_mod_cast h) (by exact_mod_cast denominator)

theorem shortestDecimal_lt (h : m.units < m'.units) : m.shortestDecimal < m'.shortestDecimal := by
  have points := gridPoint_lt_of_covers h (covers_shortestFrom m m.coarsestStep)
    (covers_shortestFrom m' m'.coarsestStep)
  have digits := Nat.lt_of_mul_lt_mul_right points
  rw [shortestDecimal, shortestDecimal, if_neg (Nat.ne_zero_of_lt h)]
  split
  · have least := mkRat_lt gridPerOne_pos (Nat.zero_lt_of_lt digits)
    rwa [Nat.cast_zero, Rat.zero_mkRat] at least
  · exact mkRat_lt gridPerOne_pos digits

theorem eq_of_units (same : m.units = m'.units) : m = m' := by
  cases m
  cases m'
  cases same
  rfl

theorem shortestDecimal_le (h : m.units ≤ m'.units) : m.shortestDecimal ≤ m'.shortestDecimal := by
  rcases h.lt_or_eq with lt | same
  · exact (shortestDecimal_lt lt).le
  · rw [eq_of_units same]

end Magnitude

end ProgressRules

import Mathlib.Algebra.Order.Field.Basic
import Mathlib.Tactic.Linarith
import ProgressRules.Proofs.Binary64.RoundTrip
import ProgressRules.Proofs.Text.Digits

/-! A ratio is rounded to the nearest number with 53 significant bits, and of two that are equally
near to the even one. This determines the result, so that it says what rounding is without the way
in which the rounded number is found. -/

namespace ProgressRules

/-! ### Nearest integers -/

/-- No integer is nearer to a ratio, and another one is as near only if the nearest one is even. -/
theorem nearestEven_nearest {n d : Nat} (positive : 0 < d) (c : Int) :
    ((nearestEven n d : Int) * d - n).natAbs ≤ (c * d - n).natAbs ∧
      (c ≠ nearestEven n d → (c * d - n).natAbs = ((nearestEven n d : Int) * d - n).natAbs →
        nearestEven n d % 2 = 0) := by
  have split : ((n / d : Nat) : Int) * d + (n % d : Nat) = n := by
    exact_mod_cast Nat.div_add_mod' n d
  have remainder := Nat.mod_lt n positive
  have parity := Nat.mod_two_eq_zero_or_one (n / d)
  have steps (a b : Int) (le : a ≤ b) : a * d ≤ b * d :=
    Int.mul_le_mul_of_nonneg_right le (Int.natCast_nonneg d)
  unfold nearestEven
  generalize n / d = q at *
  generalize n % d = r at *
  have next : ((q + 1 : Nat) : Int) * d = q * d + d := by
    push_cast
    ring
  -- one of the two neighbours of the ratio, or a point behind them
  have place : c * d ≤ q * d - d ∨ c = q ∧ c * d = q * d ∨
      c = (q + 1 : Nat) ∧ c * d = q * d + d ∨ q * d + 2 * d ≤ c * d := by
    rcases Int.lt_trichotomy c q with below | rfl | above
    · have := steps (c + 1) q below
      rw [Int.add_mul] at this
      omega
    · exact .inr (.inl ⟨rfl, rfl⟩)
    · by_cases first : c = (q + 1 : Nat)
      · exact .inr (.inr (.inl ⟨first, first ▸ next⟩))
      · have := steps (q + 2) c (by omega)
        rw [Int.add_mul] at this
        omega
  generalize c * (d : Int) = point at *
  rcases parity with even | odd
  · simp only [even, Nat.add_zero]
    split_ifs
    · omega
    · rw [next]
      omega
    · omega
  · simp only [odd]
    split_ifs
    · omega
    · rw [next]
      omega
    · rw [next]
      omega

/-! ### Nearest numbers -/

/-- A multiple of the least positive magnitude with at most 53 significant bits. Its exponent is not
bounded above. -/
def IsPrecise (y : Rat) : Prop :=
  ∃ (significand : Int) (exponent : Nat), significand.natAbs < 2 ^ 53 ∧
    y = (significand * 2 ^ exponent : Int) / unitsPerOne

/-- The last of the 53 bits is zero. -/
def IsEven (y : Rat) : Prop :=
  ∃ (significand : Int) (exponent : Nat), significand.natAbs < 2 ^ 52 ∧
    y = (significand * 2 ^ (exponent + 1) : Int) / unitsPerOne

/-- No number with 53 bits is nearer to `q` than `y` is, and another one is as near only if `y` is
even. -/
structure IsNearest (q y : Rat) : Prop where
  precise : IsPrecise y
  least : ∀ z, IsPrecise z → |y - q| ≤ |z - q|
  even : ∀ z, IsPrecise z → z ≠ y → |z - q| = |y - q| → IsEven y

theorem unitsPerOne_pos : 0 < unitsPerOne := by decide +kernel

theorem distance_eq (a : Int) (n : Nat) {u d : Nat} (unit : 0 < u) (positive : 0 < d) :
    |(a : Rat) / u - n / d| = (a * d - (n * u : Nat)).natAbs / (u * d) := by
  have unit : (0 : Rat) < u := Nat.cast_pos.2 unit
  have denominator : (0 : Rat) < d := Nat.cast_pos.2 positive
  rw [div_sub_div _ _ unit.ne' denominator.ne', abs_div, abs_of_pos (mul_pos unit denominator),
    Nat.cast_natAbs]
  push_cast
  rw [mul_comm (u : Rat) n]

theorem distance_le_iff (a b : Int) (n : Nat) {u d : Nat} (unit : 0 < u) (positive : 0 < d) :
    |(a : Rat) / u - n / d| ≤ |(b : Rat) / u - n / d| ↔
      (a * d - (n * u : Nat)).natAbs ≤ (b * d - (n * u : Nat)).natAbs := by
  have scale : (0 : Rat) < u * d := mul_pos (Nat.cast_pos.2 unit) (Nat.cast_pos.2 positive)
  rw [distance_eq a n unit positive, distance_eq b n unit positive,
    div_le_div_iff_of_pos_right scale, Nat.cast_le]

/-- The units of a number with 53 bits are no nearer to a ratio than its rounded units. -/
theorem roundUnits_nearest {n d : Nat} (positive : 0 < d) {s : Int} (bits : s.natAbs < 2 ^ 53)
    (e : Nat) :
    ((roundUnits n d : Int) * d - n).natAbs ≤ (s * 2 ^ e * d - n).natAbs ∧
      (s * 2 ^ e ≠ roundUnits n d →
        (s * 2 ^ e * d - n).natAbs = ((roundUnits n d : Int) * d - n).natAbs →
          nearestEven n (d * Nat.pow 2 (spareBits (n / d))) % 2 = 0) := by
  have step : 0 < d * Nat.pow 2 (spareBits (n / d)) :=
    Nat.mul_pos positive (Nat.two_pow_pos _)
  have binade : 0 < spareBits (n / d) → 2 ^ (52 + spareBits (n / d)) * d ≤ n := fun some =>
    (Nat.mul_le_mul_right d (two_pow_spareBits_le some)).trans (Nat.div_mul_le_self n d)
  unfold roundUnits
  generalize spareBits (n / d) = g at *
  have nearest := nearestEven_nearest (n := n) step
  generalize nearestEven n (d * Nat.pow 2 g) = significand at *
  have rounded : ((significand * Nat.pow 2 g : Nat) : Int) * d =
      significand * (d * Nat.pow 2 g : Nat) := by
    push_cast
    ring
  rw [rounded]
  rcases Nat.lt_or_ge e g with fine | coarse
  · -- below the binade, whose least number is nearer
    have below : s * 2 ^ e * d < 2 ^ 52 * (d * Nat.pow 2 g : Nat) := by
      have width : (2 : Int) ^ (e + 1) ≤ 2 ^ g := pow_le_pow_right₀ (by decide) fine
      calc s * 2 ^ e * d < 2 ^ 53 * 2 ^ e * d := by
            apply Int.mul_lt_mul_of_pos_right _ (by omega)
            exact Int.mul_lt_mul_of_pos_right (by omega) (by positivity)
        _ = 2 ^ 52 * (d * 2 ^ (e + 1)) := by ring
        _ ≤ 2 ^ 52 * (d * 2 ^ g) := by gcongr
        _ = 2 ^ 52 * (d * Nat.pow 2 g : Nat) := by push_cast [Nat.pow_eq]; rfl
    have least : 2 ^ 52 * ((d * Nat.pow 2 g : Nat) : Int) ≤ n := by
      have many := binade (by omega)
      calc 2 ^ 52 * ((d * Nat.pow 2 g : Nat) : Int) = (2 ^ (52 + g) * d : Nat) := by
            push_cast [Nat.pow_eq]
            ring
        _ ≤ n := by exact_mod_cast many
    have nearer := (nearest (2 ^ 52)).1
    omega
  · -- both are multiples of the gap
    obtain ⟨k, rfl⟩ := Nat.exists_eq_add_of_le coarse
    have scaled : s * 2 ^ (g + k) * d = s * 2 ^ k * (d * Nat.pow 2 g : Nat) := by
      push_cast [Nat.pow_eq]
      ring
    rw [scaled]
    refine ⟨(nearest _).1, fun other => (nearest _).2 fun same => other ?_⟩
    push_cast [Nat.pow_eq, ← same]
    ring

theorem isPrecise_roundUnits {n d : Nat} :
    IsPrecise (roundUnits n d / unitsPerOne) := by
  unfold roundUnits
  rcases (nearestEven_spareBits_le n d).lt_or_eq with less | full
  · refine ⟨_, spareBits (n / d), (Int.natAbs_natCast _).trans_lt less, ?_⟩
    push_cast [Nat.pow_eq]
    rfl
  · refine ⟨2 ^ 52, spareBits (n / d) + 1, by decide, ?_⟩
    rw [full]
    push_cast [Nat.pow_eq]
    ring

theorem isEven_roundUnits {n d : Nat}
    (even : nearestEven n (d * Nat.pow 2 (spareBits (n / d))) % 2 = 0) :
    IsEven (roundUnits n d / unitsPerOne) := by
  have most := nearestEven_spareBits_le n d
  unfold roundUnits
  obtain ⟨half, twice⟩ := Nat.dvd_of_mod_eq_zero even
  rw [twice] at most ⊢
  rcases most.lt_or_eq with less | full
  · refine ⟨half, spareBits (n / d), by rw [Nat.pow_eq] at less; omega, ?_⟩
    push_cast [Nat.pow_eq]
    ring
  · refine ⟨1, spareBits (n / d) + 52, by decide, ?_⟩
    rw [full]
    push_cast [Nat.pow_eq]
    ring

theorem isNearest_roundUnits (n : Nat) {d : Nat} (positive : 0 < d) :
    IsNearest (n / d) (roundUnits (n * unitsPerOne) d / unitsPerOne) := by
  have le_iff := fun a b => distance_le_iff a b n unitsPerOne_pos positive
  refine ⟨isPrecise_roundUnits, ?_, ?_⟩
  · rintro z ⟨s, e, bits, rfl⟩
    rw [← Int.cast_natCast (roundUnits _ _), le_iff]
    exact (roundUnits_nearest positive bits e).1
  · rintro z ⟨s, e, bits, rfl⟩ other tie
    rw [← Int.cast_natCast (roundUnits _ _)] at other tie
    apply isEven_roundUnits
    apply (roundUnits_nearest positive bits e).2
    · exact fun same => other (by rw [same])
    · exact Nat.le_antisymm ((le_iff _ _).1 tie.le) ((le_iff _ _).1 tie.ge)

/-! ### There is one nearest number -/

theorem IsPrecise.neg {y : Rat} (h : IsPrecise y) : IsPrecise (-y) := by
  obtain ⟨s, e, bits, rfl⟩ := h
  refine ⟨-s, e, by rwa [Int.natAbs_neg], ?_⟩
  rw [Int.neg_mul, Int.cast_neg, neg_div]

theorem IsEven.neg {y : Rat} (h : IsEven y) : IsEven (-y) := by
  obtain ⟨s, e, bits, rfl⟩ := h
  refine ⟨-s, e, by rwa [Int.natAbs_neg], ?_⟩
  rw [Int.neg_mul, Int.cast_neg, neg_div]

theorem IsNearest.neg {q y : Rat} (h : IsNearest q y) : IsNearest (-q) (-y) := by
  have flip (a b : Rat) : |-a - -b| = |a - b| := by
    rw [neg_sub_neg, abs_sub_comm]
  have back (z : Rat) : |z - -q| = |-z - q| := by
    rw [← flip (-z) q, neg_neg]
  refine ⟨h.precise.neg, fun z precise => ?_, fun z precise other tie => ?_⟩
  · rw [flip, back]
    exact h.least _ precise.neg
  · rw [flip, back] at tie
    exact (h.even _ precise.neg (fun same => other (by rw [← same, neg_neg])) tie).neg

/-- Behind an even number stands its odd neighbour, before every even number with the same gap or a
wider one. -/
theorem exists_significand_between {s t : Int} {e f : Nat} (bits : s.natAbs < 2 ^ 52) (le : e ≤ f)
    (less : s * 2 ^ (e + 1) < t * 2 ^ (f + 1)) :
    ∃ r : Int, r.natAbs < 2 ^ 53 ∧ s * 2 ^ (e + 1) < r * 2 ^ e ∧ r * 2 ^ e < t * 2 ^ (f + 1) := by
  obtain ⟨k, rfl⟩ := Nat.exists_eq_add_of_le le
  have scaled : t * 2 ^ (e + k + 1) = t * 2 ^ k * 2 ^ (e + 1) := by ring
  have double (a : Int) : a * 2 ^ (e + 1) = 2 * a * 2 ^ e := by ring
  have gap : (0 : Int) < 2 ^ e := by positivity
  rw [scaled, double, double] at less ⊢
  have less := Int.lt_of_mul_lt_mul_right less gap.le
  refine ⟨2 * s + 1, by omega, ?_, ?_⟩
  · exact Int.mul_lt_mul_of_pos_right (by omega) gap
  · exact Int.mul_lt_mul_of_pos_right (by omega) gap

theorem exists_precise_between {y z : Rat} (even : IsEven y) (even' : IsEven z) (less : y < z) :
    ∃ x, IsPrecise x ∧ y < x ∧ x < z := by
  obtain ⟨s, e, bits, rfl⟩ := even
  obtain ⟨t, f, bits', rfl⟩ := even'
  have unit : (0 : Rat) < unitsPerOne := Nat.cast_pos.2 unitsPerOne_pos
  simp only [IsPrecise, div_lt_div_iff_of_pos_right unit, Int.cast_lt] at less ⊢
  rcases Nat.le_total e f with le | le
  · obtain ⟨r, small, above, below⟩ := exists_significand_between bits le less
    refine ⟨_, ⟨r, e, small, rfl⟩, ?_, ?_⟩
    · rwa [div_lt_div_iff_of_pos_right unit, Int.cast_lt]
    · rwa [div_lt_div_iff_of_pos_right unit, Int.cast_lt]
  · rw [← Int.natAbs_neg] at bits'
    obtain ⟨r, small, above, below⟩ :=
      exists_significand_between bits' le (t := -s) (by simpa only [Int.neg_mul, neg_lt_neg_iff])
    refine ⟨_, ⟨-r, f, by rwa [Int.natAbs_neg], rfl⟩, ?_, ?_⟩
    · rw [div_lt_div_iff_of_pos_right unit, Int.cast_lt, Int.neg_mul]
      rw [Int.neg_mul] at below
      exact lt_neg_of_lt_neg below
    · rw [div_lt_div_iff_of_pos_right unit, Int.cast_lt, Int.neg_mul]
      rw [Int.neg_mul] at above
      exact neg_lt_of_neg_lt above

theorem IsNearest.unique {q y z : Rat} (h : IsNearest q y) (h' : IsNearest q z) : y = z := by
  have symmetric {y z : Rat} (h : IsNearest q y) (h' : IsNearest q z) : ¬ y < z := by
    intro less
    have tie : |z - q| = |y - q| := le_antisymm (h'.least _ h.precise) (h.least _ h'.precise)
    obtain ⟨x, precise, above, below⟩ := exists_precise_between
      (h.even _ h'.precise less.ne' tie) (h'.even _ h.precise less.ne tie.symm) less
    have nearer := h.least x precise
    rcases abs_cases (y - q) with ⟨at_y, _⟩ | ⟨at_y, _⟩ <;>
      rcases abs_cases (z - q) with ⟨at_z, _⟩ | ⟨at_z, _⟩ <;>
        rcases abs_cases (x - q) with ⟨at_x, _⟩ | ⟨at_x, _⟩ <;> linarith
  exact le_antisymm (not_lt.1 (symmetric h' h)) (not_lt.1 (symmetric h h'))

/-! ### Rounding -/

def Magnitude.value (m : Magnitude) : Rat := m.units / unitsPerOne

def withSign (negative : Bool) (q : Rat) : Rat := if negative then -q else q

namespace Binary64

def value? : Binary64 → Option Rat
  | .finite negative m => some (withSign negative m.value)
  | _ => none

/-- `q` is rounded to the nearest number with 53 bits, which is an infinity from 2^1024 on. The sign
of a zero does not count. -/
inductive Rounds (q : Rat) : Binary64 → Prop
  | finite {negative : Bool} {m : Magnitude} :
      IsNearest q (withSign negative m.value) → Rounds q (.finite negative m)
  | infinite {negative : Bool} {y : Rat} :
      IsNearest q (withSign negative y) → 2 ^ 1024 ≤ y → Rounds q (.infinite negative)

end Binary64

theorem withSign_inj {negative negative' : Bool} {a b : Rat} (le : 0 ≤ a) (le' : 0 ≤ b)
    (same : withSign negative a = withSign negative' b) :
    a = b ∧ (a = 0 ∨ negative = negative') := by
  unfold withSign at same
  cases negative <;> cases negative' <;>
    simp only [if_true, Bool.false_eq_true, if_false] at same
  · exact ⟨same, .inr rfl⟩
  · exact ⟨by linarith, .inl (by linarith)⟩
  · exact ⟨by linarith, .inl (by linarith)⟩
  · exact ⟨by linarith, .inr rfl⟩

theorem withSign_natAbs (z : Int) : withSign (z < 0) z.natAbs = (z : Rat) := by
  unfold withSign
  by_cases negative : z < 0
  · rw [if_pos (decide_eq_true negative), Nat.cast_natAbs, abs_of_neg negative, Int.cast_neg,
      neg_neg]
  · rw [if_neg (by simpa using negative), Nat.cast_natAbs, abs_of_nonneg (not_lt.1 negative)]

theorem IsNearest.withSign {q y : Rat} (h : IsNearest q y) (negative : Bool) :
    IsNearest (withSign negative q) (withSign negative y) := by
  cases negative with
  | false => exact h
  | true => exact h.neg

theorem limit_le_iff {units : Nat} :
    (2 : Rat) ^ 1024 ≤ units / unitsPerOne ↔ unitsLimit ≤ units := by
  have unit : (0 : Rat) < unitsPerOne := Nat.cast_pos.2 unitsPerOne_pos
  have limit : unitsLimit = 2 ^ 1024 * unitsPerOne := by decide +kernel
  rw [le_div_iff₀ unit, limit, ← Nat.cast_le (α := Rat), Nat.cast_mul, Nat.cast_pow, Nat.cast_ofNat]

namespace Magnitude

theorem value_nonneg (m : Magnitude) : 0 ≤ m.value :=
  div_nonneg (Nat.cast_nonneg _) (Nat.cast_nonneg _)

theorem value_lt (m : Magnitude) : m.value < 2 ^ 1024 :=
  lt_of_not_ge fun le => Nat.not_le.2 m.units_lt (limit_le_iff.1 le)

theorem value_inj {m m' : Magnitude} (same : m.value = m'.value) : m = m' := by
  have unit : (unitsPerOne : Rat) ≠ 0 := Nat.cast_ne_zero.2 unitsPerOne_pos.ne'
  apply eq_of_units
  exact_mod_cast (div_left_inj' unit).1 same

theorem value_eq_natCast_iff {m : Magnitude} {n : Nat} :
    m.value = n ↔ m.units = n * unitsPerOne := by
  have unit : (unitsPerOne : Rat) ≠ 0 := Nat.cast_ne_zero.2 unitsPerOne_pos.ne'
  rw [value, div_eq_iff unit, ← Nat.cast_mul, Nat.cast_inj]

theorem value_eq_zero_iff {m : Magnitude} : m.value = 0 ↔ m.units = 0 := by
  rw [← Nat.cast_zero, value_eq_natCast_iff, Nat.zero_mul]

end Magnitude

namespace Binary64

variable {q v : Rat} {x y : Binary64}

theorem eq_finite_of_value? (value : x.value? = some v) :
    ∃ negative m, x = .finite negative m ∧ v = withSign negative m.value := by
  cases x with
  | finite negative m => exact ⟨negative, m, rfl, (Option.some.inj value).symm⟩
  | infinite _ => cases value
  | nan => cases value

theorem exists_value (finite : x.isFinite = true) : ∃ v, x.value? = some v := by
  cases x with
  | finite negative m => exact ⟨_, rfl⟩
  | infinite _ => cases finite
  | nan => cases finite

theorem value_pos_iff (value : x.value? = some v) : 0 < v ↔ x.nonpositive = false := by
  obtain ⟨negative, m, rfl, rfl⟩ := eq_finite_of_value? value
  rw [nonpositive, Bool.or_eq_false_iff, beq_eq_false_iff_ne, ne_eq, ← Magnitude.value_eq_zero_iff]
  cases negative with
  | true => simp [withSign, m.value_nonneg]
  | false => simp [withSign, m.value_nonneg.lt_iff_ne, eq_comm]

theorem eq_of_sameNumber (positive : x.nonpositive = false)
    (same : y.SameNumber x) : y = x := by
  cases x with
  | nan => cases y <;> exact same.elim
  | infinite negative =>
    cases y with
    | infinite negative' => exact congrArg infinite same
    | finite _ _ => exact same.elim
    | nan => exact same.elim
  | finite negative m =>
    cases y with
    | infinite _ => exact same.elim
    | nan => exact same.elim
    | finite negative' m' =>
      obtain ⟨rfl, zero | rfl⟩ := same
      · simp [nonpositive, zero] at positive
      · rfl

theorem rounds_ofRatio (negative : Bool) (n : Nat) {d : Nat} (positive : 0 < d) :
    (ofRatio negative n d).Rounds (withSign negative (n / d)) := by
  have nearest := (isNearest_roundUnits n positive).withSign negative
  cases Nat.lt_or_ge (roundUnits (n * unitsPerOne) d) unitsLimit with
  | inl finite =>
    rw [ofRatio, dif_pos finite]
    exact .finite nearest
  | inr large =>
    rw [ofRatio, dif_neg (Nat.not_lt.2 large)]
    exact .infinite nearest (limit_le_iff.2 large)

theorem Rounds.sameNumber (h : x.Rounds q) (h' : y.Rounds q) : x.SameNumber y := by
  have positive {a : Rat} (large : 2 ^ 1024 ≤ a) : 0 < a := lt_of_lt_of_le (by positivity) large
  cases h with
  | @finite negative m nearest =>
    cases h' with
    | @finite negative' m' nearest' =>
      obtain ⟨same, sign⟩ := withSign_inj m.value_nonneg m'.value_nonneg (nearest.unique nearest')
      exact ⟨Magnitude.value_inj same, sign.imp_left Magnitude.value_eq_zero_iff.1⟩
    | infinite nearest' large =>
      obtain ⟨same, -⟩ := withSign_inj m.value_nonneg (positive large).le (nearest.unique nearest')
      exact absurd m.value_lt (not_lt.2 (same ▸ large))
  | infinite nearest large =>
    cases h' with
    | @finite negative' m' nearest' =>
      obtain ⟨same, -⟩ := withSign_inj (positive large).le m'.value_nonneg (nearest.unique nearest')
      exact absurd m'.value_lt (not_lt.2 (same ▸ large))
    | infinite nearest' large' =>
      obtain ⟨-, sign⟩ :=
        withSign_inj (positive large).le (positive large').le (nearest.unique nearest')
      exact sign.resolve_left (positive large).ne'

theorem Rounds.of_sameNumber (h : x.Rounds q) (same : y.SameNumber x) : y.Rounds q := by
  cases y with
  | nan => exact same.elim
  | finite negative m =>
    cases h with
    | infinite => exact same.elim
    | finite nearest =>
      obtain ⟨rfl, zero | rfl⟩ := same
      · have none := Magnitude.value_eq_zero_iff.2 zero
        have unsigned (negative : Bool) : withSign negative m.value = 0 := by
          rw [none, withSign, neg_zero, ite_self]
        rw [unsigned] at nearest
        exact .finite (by rwa [unsigned])
      · exact .finite nearest
  | infinite negative =>
    cases h with
    | finite => exact same.elim
    | infinite nearest large =>
      obtain rfl : negative = _ := same
      exact .infinite nearest large

theorem Rounds.iff (h : x.Rounds q) : y.Rounds q ↔ y.SameNumber x :=
  ⟨fun h' => h'.sameNumber h, h.of_sameNumber⟩

end Binary64

/-! ### Decimals -/

theorem roundUnits_of_few_places {digits places : Nat}
    (few : (Text.ofNat digits).length + 324 ≤ places) :
    roundUnits (digits * unitsPerOne) (Nat.pow 10 places) = 0 := by
  have unit : 2 * unitsPerOne ≤ Magnitude.gridPerOne := by decide +kernel
  apply (roundUnits_eq_zero_iff (Nat.pow_pos (by decide))).2
  calc 2 * (digits * unitsPerOne) = digits * (2 * unitsPerOne) := by ring
    _ ≤ 10 ^ (Text.ofNat digits).length * Magnitude.gridPerOne :=
      Nat.mul_le_mul (Text.lt_ten_pow_digits digits).le unit
    _ = 10 ^ ((Text.ofNat digits).length + 324) := by
      rw [Nat.pow_add, Magnitude.gridPerOne, Nat.pow_eq]
    _ ≤ 10 ^ places := Nat.pow_le_pow_right (by decide) few

theorem unitsLimit_le_of_many_places {digits up down : Nat} (some : 0 < digits)
    (many : 310 + down ≤ (Text.ofNat digits).length + up) :
    unitsLimit ≤ roundUnits (digits * Nat.pow 10 up * unitsPerOne) (Nat.pow 10 down) := by
  have limit : unitsLimit ≤ roundUnits (Nat.pow 10 309 * unitsPerOne) 1 := by decide +kernel
  refine limit.trans (roundUnits_mono (by decide) (Nat.pow_pos (by decide)) ?_)
  have reached : Nat.pow 10 309 * Nat.pow 10 down ≤ digits * Nat.pow 10 up := by
    apply Nat.le_of_mul_le_mul_left _ (by decide : 0 < 10)
    calc 10 * (Nat.pow 10 309 * Nat.pow 10 down) = 10 ^ (310 + down) := by
          rw [Nat.pow_eq, Nat.pow_eq, ← Nat.pow_add, ← Nat.pow_succ']
          congr 1
          omega
      _ ≤ 10 ^ ((Text.ofNat digits).length + up) := Nat.pow_le_pow_right (by decide) many
      _ = 10 ^ (Text.ofNat digits).length * 10 ^ up := Nat.pow_add ..
      _ ≤ 10 * digits * 10 ^ up := Nat.mul_le_mul_right _ (Text.ten_pow_digits_le some)
      _ = 10 * (digits * 10 ^ up) := Nat.mul_assoc ..
  calc Nat.pow 10 309 * unitsPerOne * Nat.pow 10 down
      = Nat.pow 10 309 * Nat.pow 10 down * unitsPerOne := Nat.mul_right_comm ..
    _ ≤ digits * Nat.pow 10 up * unitsPerOne := Nat.mul_le_mul_right _ reached
    _ = digits * Nat.pow 10 up * unitsPerOne * 1 := (Nat.mul_one _).symm

namespace Binary64

theorem ofRatio_congr {n d n' d' : Nat}
    (same : roundUnits (n * unitsPerOne) d = roundUnits (n' * unitsPerOne) d') (negative : Bool) :
    ofRatio negative n d = ofRatio negative n' d' := by
  simp only [ofRatio, same]

theorem decimal_eq_div (digits : Nat) (exponent : Int) :
    (digits * 10 ^ exponent : Rat) =
      (digits * Nat.pow 10 exponent.toNat : Nat) / (Nat.pow 10 (-exponent).toNat : Nat) := by
  rcases Int.eq_nat_or_neg exponent with ⟨k, rfl | rfl⟩ <;> simp [div_eq_mul_inv]

/-- Beyond the places for which the power is computed the result is the same. -/
theorem ofDecimal_eq_ofRatio (negative : Bool) (digits : Nat) (exponent : Int) :
    ofDecimal negative digits exponent =
      ofRatio negative (digits * Nat.pow 10 exponent.toNat) (Nat.pow 10 (-exponent).toNat) := by
  rw [ofDecimal]
  rcases Nat.eq_zero_or_pos digits with rfl | some
  · rw [if_pos (by simp)]
    apply ofRatio_congr
    simp only [Nat.zero_mul, roundUnits_zero]
  · simp only [some.ne', decide_false, Bool.false_or, decide_eq_true_eq]
    split_ifs with few many
    · have whole : exponent.toNat = 0 := by omega
      have none : roundUnits (digits * unitsPerOne) (Nat.pow 10 (-exponent).toNat) = 0 := by
        apply roundUnits_of_few_places
        unfold Text.ofNat
        omega
      apply ofRatio_congr
      rw [whole, Nat.pow_eq, Nat.pow_zero, Nat.mul_one, none, Nat.zero_mul, roundUnits_zero]
    · have large : unitsLimit ≤ roundUnits (digits * Nat.pow 10 exponent.toNat * unitsPerOne)
          (Nat.pow 10 (-exponent).toNat) := by
        apply unitsLimit_le_of_many_places some
        unfold Text.ofNat
        omega
      rw [ofRatio, dif_neg (Nat.not_lt.2 large)]
    · rfl

theorem rounds_ofDecimal (negative : Bool) (digits : Nat) (exponent : Int) :
    (ofDecimal negative digits exponent).Rounds (withSign negative (digits * 10 ^ exponent)) := by
  have power : 0 < Nat.pow 10 (-exponent).toNat := Nat.pow_pos (by decide)
  rw [ofDecimal_eq_ofRatio, decimal_eq_div]
  exact rounds_ofRatio negative (digits * Nat.pow 10 exponent.toNat) power

end Binary64

end ProgressRules

/-! Binary64 numbers. A finite magnitude is a whole number of units of 2^-1074, the least
positive magnitude, with at most 53 significant bits. Reading a ratio of natural numbers
rounds it to the nearest such number, a half to the even significand. -/

namespace ProgressRules

def unitsPerOne : Nat := Nat.pow 2 1074

/-- The units of 2^1024, where the finite magnitudes end. -/
def unitsLimit : Nat := Nat.pow 2 2098

/-- At most 53 significant bits, and a value below 2^1024. -/
def Representable (units : Nat) : Prop :=
  ∃ significand exponent, significand < Nat.pow 2 53 ∧ exponent ≤ 2045 ∧
    units = significand * Nat.pow 2 exponent

structure Magnitude where
  units : Nat
  representable : Representable units
deriving DecidableEq

inductive Binary64 where
  | finite (negative : Bool) (magnitude : Magnitude)
  | infinite (negative : Bool)
  | nan
deriving DecidableEq

/-- The natural number nearest to `n / d`, of two equally near the even one. -/
def nearestEven (n d : Nat) : Nat :=
  if 2 * (n % d) < d then n / d
  else if d < 2 * (n % d) then n / d + 1
  else n / d + n / d % 2

/-- The number of low bits that a magnitude of `units` has no room for. -/
def spareBits (units : Nat) : Nat := units.log2 + 1 - 53

/-- The units of the number nearest to `n / d` units, the exponent being unbounded above. -/
def roundUnits (n d : Nat) : Nat :=
  nearestEven n (d * Nat.pow 2 (spareBits (n / d))) * Nat.pow 2 (spareBits (n / d))

theorem nearestEven_le_of_div_lt {n d b : Nat} (h : n / d < b) : nearestEven n d ≤ b := by
  have := Nat.mod_two_eq_zero_or_one (n / d)
  unfold nearestEven
  split
  · omega
  · split <;> omega

theorem div_le_nearestEven (n d : Nat) : n / d ≤ nearestEven n d := by
  unfold nearestEven
  split
  · omega
  · split <;> omega

theorem lt_of_two_pow_lt {m n : Nat} (h : Nat.pow 2 m < Nat.pow 2 n) : m < n :=
  (Nat.pow_lt_pow_iff_right (by decide)).1 h

theorem lt_two_pow_spareBits (n : Nat) : n < Nat.pow 2 (53 + spareBits n) :=
  Nat.lt_of_lt_of_le (Nat.lt_log2_self (n := n))
    (Nat.pow_le_pow_right (by decide) (by unfold spareBits; omega))

theorem two_pow_spareBits_le {n : Nat} (h : 0 < spareBits n) :
    Nat.pow 2 (52 + spareBits n) ≤ n := by
  have hn : n ≠ 0 := by
    intro hz
    simp [spareBits, hz] at h
  refine Nat.le_trans (Nat.pow_le_pow_right (by decide) ?_) (Nat.log2_self_le hn)
  unfold spareBits at *
  omega

/-- The rounded significand takes at most one bit more than there is room for. -/
theorem nearestEven_spareBits_le (n d : Nat) :
    nearestEven n (d * Nat.pow 2 (spareBits (n / d))) ≤ Nat.pow 2 53 := by
  apply nearestEven_le_of_div_lt
  rw [← Nat.div_div_eq_div_mul]
  apply Nat.div_lt_of_lt_mul
  rw [Nat.pow_eq, Nat.pow_eq, ← Nat.pow_add, Nat.add_comm]
  exact lt_two_pow_spareBits (n / d)

theorem representable_roundUnits {n d : Nat} (h : roundUnits n d < unitsLimit) :
    Representable (roundUnits n d) := by
  unfold unitsLimit at h
  have bound := nearestEven_spareBits_le n d
  have exponent_le : spareBits (n / d) ≤ 2045 := by
    rcases Nat.eq_zero_or_pos (spareBits (n / d)) with hz | hp
    · omega
    · have low : Nat.pow 2 52 ≤ nearestEven n (d * Nat.pow 2 (spareBits (n / d))) := by
        refine Nat.le_trans ?_ (div_le_nearestEven _ _)
        rw [← Nat.div_div_eq_div_mul]
        apply (Nat.le_div_iff_mul_le (Nat.pow_pos (by decide))).2
        rw [Nat.pow_eq, ← Nat.pow_add]
        exact two_pow_spareBits_le hp
      have total : Nat.pow 2 (52 + spareBits (n / d)) < Nat.pow 2 2098 := by
        refine Nat.lt_of_le_of_lt ?_ h
        rw [Nat.pow_eq, Nat.pow_add]
        exact Nat.mul_le_mul_right _ low
      have := lt_of_two_pow_lt total
      omega
  rcases Nat.lt_or_eq_of_le bound with hlt | heq
  · exact ⟨_, _, hlt, exponent_le, rfl⟩
  · refine ⟨Nat.pow 2 52, spareBits (n / d) + 1, by decide, ?_, ?_⟩
    · have top : Nat.pow 2 (53 + spareBits (n / d)) < Nat.pow 2 2098 := by
        have h' := h
        unfold roundUnits at h'
        rwa [heq, Nat.pow_eq, Nat.pow_eq, ← Nat.pow_add] at h'
      have := lt_of_two_pow_lt top
      omega
    · unfold roundUnits
      rw [heq]
      simp only [Nat.pow_eq]
      rw [← Nat.pow_add, ← Nat.pow_add]
      congr 1
      omega

namespace Binary64

/-- The number nearest to `numerator / denominator`; from 2^1024 on this is an infinity. -/
def ofRatio (negative : Bool) (numerator denominator : Nat) : Binary64 :=
  if h : roundUnits (numerator * unitsPerOne) denominator < unitsLimit then
    .finite negative ⟨_, representable_roundUnits h⟩
  else .infinite negative

def nonpositive : Binary64 → Bool
  | .finite negative magnitude => negative || magnitude.units == 0
  | .infinite negative => negative
  | .nan => false

def isFinite : Binary64 → Bool
  | .finite .. => true
  | _ => false

/-- The number nearest to `digits * 10 ^ exponent`. Beyond four hundred places on either side
of the point the result is an infinity or zero, and the power is not computed. -/
def ofDecimal (negative : Bool) (digits : Nat) (exponent : Int) : Binary64 :=
  let places := exponent + (Nat.toDigits 10 digits).length
  if digits = 0 || places < -400 then ofRatio negative 0 1
  else if 400 < places then .infinite negative
  else ofRatio negative (digits * Nat.pow 10 exponent.toNat) (Nat.pow 10 (-exponent).toNat)

end Binary64

end ProgressRules

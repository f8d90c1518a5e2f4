import Mathlib.Tactic.Ring
import ProgressRules.Binary64.Shortest

/-! Rounding keeps order. Within a binade the remainders decide; between binades the greatest
rounded significand of one binade does not exceed the least of the next. -/

namespace ProgressRules

/-! ### Nearest integers -/

theorem nearestEven_le_succ (n d : Nat) : nearestEven n d ≤ n / d + 1 :=
  nearestEven_le_of_div_lt (Nat.lt_succ_self _)

theorem div_le_div_of_mul_le {a b a' b' : Nat} (hb : 0 < b) (hb' : 0 < b')
    (h : a * b' ≤ a' * b) : a / b ≤ a' / b' := by
  refine (Nat.le_div_iff_mul_le hb').2 (Nat.le_of_mul_le_mul_right ?_ hb)
  calc a / b * b' * b = a / b * b * b' := by ring
    _ ≤ a * b' := Nat.mul_le_mul_right b' (Nat.div_mul_le_self a b)
    _ ≤ a' * b := h

theorem nearestEven_mono {a b a' b' : Nat} (hb : 0 < b) (hb' : 0 < b')
    (h : a * b' ≤ a' * b) : nearestEven a b ≤ nearestEven a' b' := by
  rcases (div_le_div_of_mul_le hb hb' h).lt_or_eq with lt | eq
  · exact (nearestEven_le_of_div_lt lt).trans (div_le_nearestEven a' b')
  · -- the quotients are the same, so that the remainders decide
    have remainders : a % b * b' ≤ a' % b' * b := by
      have split : a * b' = a / b * b * b' + a % b * b' := by
        rw [← Nat.add_mul, Nat.div_add_mod']
      have split' : a' * b = a / b * b * b' + a' % b' * b := by
        rw [eq, Nat.mul_right_comm, ← Nat.add_mul, Nat.div_add_mod']
      omega
    have doubled : 2 * (a % b) * b' ≤ 2 * (a' % b') * b := by
      rw [Nat.mul_assoc, Nat.mul_assoc]
      exact Nat.mul_le_mul_left 2 remainders
    have above : b < 2 * (a % b) → b' < 2 * (a' % b') := fun lt => by
      refine Nat.lt_of_mul_lt_mul_right (a := b) ?_
      calc b' * b = b * b' := Nat.mul_comm b' b
        _ < 2 * (a % b) * b' := Nat.mul_lt_mul_of_pos_right lt hb'
        _ ≤ 2 * (a' % b') * b := doubled
    have notBelow : b ≤ 2 * (a % b) → b' ≤ 2 * (a' % b') := fun le => by
      refine Nat.le_of_mul_le_mul_right ?_ hb
      calc b' * b = b * b' := Nat.mul_comm b' b
        _ ≤ 2 * (a % b) * b' := Nat.mul_le_mul_right b' le
        _ ≤ 2 * (a' % b') * b := doubled
    have parity := Nat.mod_two_eq_zero_or_one (a' / b')
    unfold nearestEven
    rw [eq]
    split
    · split
      · exact Nat.le_refl _
      · split <;> omega
    · split
      · rw [if_neg (by omega), if_pos (by omega)]
      · rw [if_neg (by omega)]
        split <;> omega

theorem nearestEven_eq_zero_iff {n d : Nat} (hd : 0 < d) : nearestEven n d = 0 ↔ 2 * n ≤ d := by
  rcases Nat.lt_or_ge n d with less | more
  · unfold nearestEven
    rw [Nat.div_eq_of_lt less, Nat.mod_eq_of_lt less]
    split
    · omega
    · split <;> omega
  · have quotient : 0 < n / d := Nat.div_pos more hd
    have above := div_le_nearestEven n d
    omega

/-- An even number is reached from half a step below it on. -/
theorem le_nearestEven_iff {n d s : Nat} (hd : 0 < d) (even : s % 2 = 0) :
    s ≤ nearestEven n d ↔ 2 * (s * d) ≤ 2 * n + d := by
  have split := Nat.div_add_mod' n d
  have remainder := Nat.mod_lt n hd
  have steps : ∀ a b, a ≤ b → a * d ≤ b * d := fun a b le => Nat.mul_le_mul_right d le
  unfold nearestEven
  generalize n / d = q at split ⊢
  constructor
  · intro reached
    by_cases below : s ≤ q
    · have := steps s q below
      omega
    · have next : s = q + 1 := by
        split_ifs at reached <;> omega
      subst next
      rw [Nat.add_mul]
      split_ifs at reached <;> omega
  · intro near
    have most : s ≤ q + 1 := by
      apply Nat.le_of_not_lt
      intro far
      have := steps (q + 2) s far
      rw [Nat.add_mul] at this
      omega
    by_cases below : s ≤ q
    · split_ifs <;> omega
    · have next : s = q + 1 := by omega
      subst next
      rw [Nat.add_mul] at near
      split_ifs <;> omega

/-! ### Units -/

theorem roundUnits_zero (d : Nat) : roundUnits 0 d = 0 := by
  simp [roundUnits, nearestEven]

theorem spareBits_mono {n n' : Nat} (h : n ≤ n') : spareBits n ≤ spareBits n' := by
  have log : n.log2 ≤ n'.log2 := by
    by_cases zero : n = 0
    · subst zero
      simp
    · exact (Nat.le_log2 (by omega)).2 ((Nat.log2_self_le zero).trans h)
  unfold spareBits
  omega

theorem two_pow_le_nearestEven {n d : Nat} (some : 0 < spareBits (n / d)) :
    2 ^ 52 ≤ nearestEven n (d * Nat.pow 2 (spareBits (n / d))) := by
  refine Nat.le_trans ?_ (div_le_nearestEven _ _)
  rw [← Nat.div_div_eq_div_mul, Nat.pow_eq, Nat.le_div_iff_mul_le (Nat.two_pow_pos _),
    ← Nat.pow_add]
  exact two_pow_spareBits_le some

theorem roundUnits_eq_zero_iff {n d : Nat} (hd : 0 < d) : roundUnits n d = 0 ↔ 2 * n ≤ d := by
  rcases Nat.eq_zero_or_pos (spareBits (n / d)) with none | some
  · rw [roundUnits, none, show Nat.pow 2 0 = 1 from rfl, Nat.mul_one, Nat.mul_one,
      nearestEven_eq_zero_iff hd]
  · -- so many units are far above a half
    have many : 2 ^ (52 + spareBits (n / d)) ≤ n / d := two_pow_spareBits_le some
    have one : 1 ≤ n / d := Nat.one_le_two_pow.trans many
    have large : d ≤ n := by simpa using (Nat.le_div_iff_mul_le hd).1 one
    have significand := two_pow_le_nearestEven some
    have positive : 0 < roundUnits n d :=
      Nat.mul_pos (Nat.lt_of_lt_of_le (by decide) significand) (Nat.pow_pos (by decide))
    omega

theorem roundUnits_mono {a d a' d' : Nat} (hd : 0 < d) (hd' : 0 < d') (h : a * d' ≤ a' * d) :
    roundUnits a d ≤ roundUnits a' d' := by
  have positive : ∀ k, 0 < Nat.pow 2 k := fun k => Nat.pow_pos (by decide)
  rcases (spareBits_mono (div_le_div_of_mul_le hd hd' h)).lt_or_eq with lt | eq
  · unfold roundUnits
    have upper := nearestEven_spareBits_le a d
    have lower := two_pow_le_nearestEven (n := a') (d := d') (by omega)
    generalize spareBits (a / d) = k at lt upper ⊢
    generalize spareBits (a' / d') = k' at lt lower ⊢
    calc nearestEven a (d * Nat.pow 2 k) * Nat.pow 2 k
        ≤ Nat.pow 2 53 * Nat.pow 2 k := Nat.mul_le_mul_right _ upper
      _ = Nat.pow 2 52 * Nat.pow 2 (k + 1) := by simp only [Nat.pow_eq]; ring
      _ ≤ Nat.pow 2 52 * Nat.pow 2 k' :=
        Nat.mul_le_mul_left _ (Nat.pow_le_pow_right (by decide) lt)
      _ ≤ nearestEven a' (d' * Nat.pow 2 k') * Nat.pow 2 k' := Nat.mul_le_mul_right _ lower
  · unfold roundUnits
    rw [eq]
    refine Nat.mul_le_mul_right _ (nearestEven_mono (Nat.mul_pos hd (positive _))
      (Nat.mul_pos hd' (positive _)) ?_)
    calc a * (d' * Nat.pow 2 (spareBits (a' / d')))
        = a * d' * Nat.pow 2 (spareBits (a' / d')) := (Nat.mul_assoc _ _ _).symm
      _ ≤ a' * d * Nat.pow 2 (spareBits (a' / d')) := Nat.mul_le_mul_right _ h
      _ = a' * (d * Nat.pow 2 (spareBits (a' / d'))) := Nat.mul_assoc _ _ _

end ProgressRules

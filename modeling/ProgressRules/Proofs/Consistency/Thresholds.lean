import Mathlib.Order.CountableDenseLinearOrder
import ProgressRules.Proofs.Binary64.Shortest
import ProgressRules.Proofs.Condition.Tokens
import ProgressRules.Proofs.Consistency.Verdict
import ProgressRules.Proofs.Formula.Progress

/-! A condition is checked with the shortest decimals of its thresholds. They are in the order of
the decimals that were typed, except that different ones may be rounded to one threshold. Only
the order matters to whether a condition can be satisfied. -/

namespace ProgressRules

/-! ### Order of thresholds -/

theorem Operator.relates_congr {o : Operator} {x y p q : ℝ} (before : x < p ↔ y < q)
    (behind : p < x ↔ q < y) : o.Relates x p ↔ o.Relates y q := by
  have le : x ≤ p ↔ y ≤ q := by rw [← not_lt, behind, not_lt]
  have ge : p ≤ x ↔ q ≤ y := by rw [← not_lt, before, not_lt]
  have eq : x = p ↔ y = q := by rw [le_antisymm_iff, le_antisymm_iff, le, ge]
  cases o with
  | ge => exact ge
  | le => exact le
  | gt => exact behind
  | lt => exact before
  | eq => exact eq
  | ne => exact not_congr eq
  | other => exact Iff.rfl

/-- Numbers in the same order have places in the same order between them. -/
theorem exists_same_place {α : Type} (items : List α) {p q : α → Rat}
    (ordered : ∀ i ∈ items, ∀ j ∈ items, p i < p j ↔ q i < q j) (x : ℝ) :
    ∃ y : ℝ, ∀ i ∈ items, (x < p i ↔ y < q i) ∧ ((p i : ℝ) < x ↔ (q i : ℝ) < y) := by
  classical
  by_cases on : ∃ i ∈ items, (p i : ℝ) = x
  · obtain ⟨i, member, rfl⟩ := on
    refine ⟨q i, fun j member' => ?_⟩
    simp only [Rat.cast_lt]
    exact ⟨ordered i member j member', ordered j member' i member⟩
  · let before := ((items.filter fun i => (p i : ℝ) < x).map fun i => (q i : ℝ)).toFinset
    let behind := ((items.filter fun i => x < p i).map fun i => (q i : ℝ)).toFinset
    have mem_before : ∀ u, u ∈ before ↔ ∃ i ∈ items, (p i : ℝ) < x ∧ (q i : ℝ) = u := by
      simp [before, and_assoc]
    have mem_behind : ∀ u, u ∈ behind ↔ ∃ i ∈ items, x < p i ∧ (q i : ℝ) = u := by
      simp [behind, and_assoc]
    have apart : ∀ u ∈ before, ∀ v ∈ behind, u < v := by
      intro u hu v hv
      obtain ⟨i, member, earlier, rfl⟩ := (mem_before u).1 hu
      obtain ⟨j, member', after, rfl⟩ := (mem_behind v).1 hv
      exact Rat.cast_lt.2 ((ordered i member j member').1 (Rat.cast_lt.1 (earlier.trans after)))
    obtain ⟨y, above, below⟩ := Order.exists_between_finsets before behind apart
    refine ⟨y, fun i member => ?_⟩
    rcases lt_trichotomy x (p i) with after | same | earlier
    · have after' : y < q i := below _ ((mem_behind _).2 ⟨i, member, after, rfl⟩)
      exact ⟨⟨fun _ => after', fun _ => after⟩,
        ⟨fun h => absurd h after.asymm, fun h => absurd h after'.asymm⟩⟩
    · exact absurd ⟨i, member, same.symm⟩ on
    · have earlier' : q i < y := above _ ((mem_before _).2 ⟨i, member, earlier, rfl⟩)
      exact ⟨⟨fun h => absurd h earlier.asymm, fun h => absurd h earlier'.asymm⟩,
        ⟨fun _ => earlier', fun _ => earlier⟩⟩

namespace Condition

/-- The thresholds with which one reference is compared are in the same order in two readings. -/
def SameOrder (p q : Comparison → Rat) (cs : List Comparison) : Prop :=
  ∀ c ∈ cs, ∀ c' ∈ cs, c.reference = c'.reference → (p c < p c' ↔ q c < q c')

theorem satisfiable_of_sameOrder {p q : Comparison → Rat} {t : Condition}
    (ordered : SameOrder p q t.comparisons) {v : Text → ℝ}
    (holds : t.Holds (Comparison.Holds p v)) :
    ∃ w : Text → ℝ, t.Holds (Comparison.Holds q w) := by
  have places : ∀ reference, ∃ y : ℝ, ∀ c ∈ t.comparisons.filter (·.reference == reference),
      (v reference < p c ↔ y < q c) ∧ ((p c : ℝ) < v reference ↔ (q c : ℝ) < y) := by
    intro reference
    refine exists_same_place _ (fun c member c' member' => ?_) _
    simp only [List.mem_filter, beq_iff_eq] at member member'
    exact ordered c member.1 c' member'.1 (member.2.trans member'.2.symm)
  choose w same using places
  refine ⟨w, (holds_congr fun c member => ?_).1 holds⟩
  obtain ⟨before, behind⟩ := same c.reference c (List.mem_filter.2 ⟨member, beq_self_eq_true _⟩)
  exact Operator.relates_congr before behind

theorem SameOrder.symm {p q : Comparison → Rat} {cs : List Comparison} (h : SameOrder p q cs) :
    SameOrder q p cs :=
  fun c member c' member' same => (h c member c' member' same).symm

theorem satisfiable_iff_of_sameOrder {p q : Comparison → Rat} {t : Condition}
    (ordered : SameOrder p q t.comparisons) :
    (∃ v : Text → ℝ, t.Holds (Comparison.Holds p v)) ↔
      ∃ v : Text → ℝ, t.Holds (Comparison.Holds q v) :=
  ⟨fun ⟨_, holds⟩ => satisfiable_of_sameOrder ordered holds,
    fun ⟨_, holds⟩ => satisfiable_of_sameOrder ordered.symm holds⟩

/-- The decimals that are typed for one reference differ in their thresholds, if at all. -/
def Distinguished (cs : List Comparison) : Prop :=
  ∀ c ∈ cs, ∀ c' ∈ cs, c.reference = c'.reference → c.threshold = c'.threshold →
    c.typedThreshold = c'.typedThreshold

end Condition

/-! ### Rounded decimals -/

namespace Numeral

def units (n : Numeral) : Nat := roundUnits (n.numerator * unitsPerOne) n.denominator

theorem nearest_eq_finite {n : Numeral} {negative : Bool} {m : Magnitude}
    (h : n.nearest = .finite negative m) :
    negative = false ∧ m.units = n.units := by
  unfold nearest Binary64.ofRatio at h
  split at h
  · obtain ⟨rfl, rfl⟩ := Binary64.finite.inj h
    exact ⟨rfl, rfl⟩
  · exact absurd h nofun

theorem units_mono {n n' : Numeral} (le : n.value ≤ n'.value) : n.units ≤ n'.units := by
  have positive : ∀ n : Numeral, 0 < n.denominator := fun n => Nat.pow_pos (by decide)
  have crossed : n.numerator * n'.denominator ≤ n'.numerator * n.denominator := by
    have : (0 : Rat) < n.denominator := by exact_mod_cast positive n
    have : (0 : Rat) < n'.denominator := by exact_mod_cast positive n'
    rw [value, value, div_le_div_iff₀ ‹_› ‹_›] at le
    exact_mod_cast le
  refine roundUnits_mono (positive n) (positive n') ?_
  rw [Nat.mul_right_comm, Nat.mul_right_comm _ unitsPerOne]
  exact Nat.mul_le_mul_right _ crossed

theorem isFinite_nearest_iff {n : Numeral} :
    n.nearest.isFinite = true ↔ n.units < unitsLimit := by
  unfold nearest Binary64.ofRatio
  split
  · exact iff_of_true rfl ‹_›
  · exact iff_of_false Bool.false_ne_true ‹_›

theorem units_le {n n' : Numeral} {m m' : Magnitude} {negative negative' : Bool}
    (h : n.nearest = .finite negative m) (h' : n'.nearest = .finite negative' m')
    (le : n.value ≤ n'.value) : m.units ≤ m'.units := by
  rw [(nearest_eq_finite h).2, (nearest_eq_finite h').2]
  exact units_mono le

end Numeral

namespace Comparison

variable {c c' : Comparison}

theorem IsWritten.exists_rounding (h : c.IsWritten) (finite : c.threshold.isFinite = true) :
    ∃ (n : Numeral) (m : Magnitude), c.typedThreshold = n.value ∧
      n.nearest = .finite false m ∧ c.threshold = .finite false m ∧
      c.checkedThreshold = m.shortestDecimal := by
  obtain ⟨w, wellFormed, rfl⟩ := h
  rw [w.threshold_comparison] at finite
  rw [checkedThreshold, w.threshold_comparison, typedThreshold_comparison wellFormed]
  cases same : w.number.nearest with
  | finite negative m =>
    obtain ⟨rfl, -⟩ := Numeral.nearest_eq_finite same
    exact ⟨w.number, m, rfl, same, rfl, rfl⟩
  | infinite | nan =>
    rw [same] at finite
    cases finite

theorem IsWritten.checkedThreshold_le (h : c.IsWritten) (h' : c'.IsWritten)
    (finite : c.threshold.isFinite = true) (finite' : c'.threshold.isFinite = true)
    (le : c.typedThreshold ≤ c'.typedThreshold) : c.checkedThreshold ≤ c'.checkedThreshold := by
  obtain ⟨n, m, typed, nearest, -, checked⟩ := h.exists_rounding finite
  obtain ⟨n', m', typed', nearest', -, checked'⟩ := h'.exists_rounding finite'
  rw [typed, typed'] at le
  rw [checked, checked']
  exact Magnitude.shortestDecimal_le (Numeral.units_le nearest nearest' le)

theorem IsWritten.checkedThreshold_lt (h : c.IsWritten) (h' : c'.IsWritten)
    (finite : c.threshold.isFinite = true) (finite' : c'.threshold.isFinite = true)
    (lt : c.typedThreshold < c'.typedThreshold) (apart : c.threshold ≠ c'.threshold) :
    c.checkedThreshold < c'.checkedThreshold := by
  obtain ⟨n, m, typed, nearest, rounded, checked⟩ := h.exists_rounding finite
  obtain ⟨n', m', typed', nearest', rounded', checked'⟩ := h'.exists_rounding finite'
  rw [typed, typed'] at lt
  rw [checked, checked']
  refine Magnitude.shortestDecimal_lt ((Numeral.units_le nearest nearest' lt.le).lt_of_ne ?_)
  intro same
  exact apart (by rw [rounded, rounded', Magnitude.eq_of_units same])

end Comparison

namespace Condition

theorem Distinguished.sameOrder {cs : List Comparison} (distinguished : Distinguished cs)
    (written : ∀ c ∈ cs, c.IsWritten) (finite : ∀ c ∈ cs, c.threshold.isFinite = true) :
    SameOrder Comparison.typedThreshold Comparison.checkedThreshold cs := by
  intro c member c' member' reference
  constructor
  · intro lt
    refine (written c member).checkedThreshold_lt (written c' member') (finite c member)
      (finite c' member') lt fun same => ?_
    exact lt.ne (distinguished c member c' member' reference same)
  · intro lt
    by_contra ge
    exact absurd lt (not_lt.2 ((written c' member').checkedThreshold_le (written c member)
      (finite c' member') (finite c member) (not_lt.1 ge)))

/-- A condition is checked as it is typed, if no two references share a name and no two decimals
are rounded to one threshold. -/
theorem satisfiable_iff_typed {t : Condition} (regular : t.IsRegular Comparison.IsWritten)
    (checked : ∀ c ∈ t.comparisons, c.IsChecked) (apart : Consistency.NamesApart t.comparisons)
    (distinguished : Distinguished t.comparisons) :
    (∃ v : Text → ℝ, t.Holds (Constraint.HoldsByName Comparison.checkedThreshold v)) ↔
      ∃ v : Text → ℝ, t.Holds (Comparison.Holds Comparison.typedThreshold v) :=
  (Consistency.exists_byName_iff apart Comparison.checkedThreshold holds_congr).trans
    (satisfiable_iff_of_sameOrder (distinguished.sameOrder regular.of_mem
      fun c member => (checked c member).2)).symm

end Condition

end ProgressRules

import ProgressRules.Proofs.Binary64.RoundTrip
import ProgressRules.Proofs.Consistency.Thresholds
import ProgressRules.Proofs.Consistency.Witness

/-! Forced values. If all assignments that satisfy a condition give a reference the same value, then
this is a threshold of the reference. The witness gives the reference the quotient of the rounded
numerator and the rounded denominator of this value, which is the threshold again if nothing is
lost in these roundings. -/

namespace ProgressRules

/-! ### Written values -/

namespace Consistency

open Constraint (nameOf HoldsByName)

/-- Numerator and denominator of the value are not rounded before the division, or there is no
division. -/
def HasExactParts (q : Rat) : Prop := q.den = 1 ∨ IsExact q.num.natAbs ∧ IsExact q.den

/-- Decimals with fewer than 16 digits and at most 22 of them behind the point. -/
theorem hasExactParts_of_short {q : Rat} (digits places : Nat) (few : digits < 2 ^ 53)
    (short : places ≤ 22) (decimal : |q| = digits / (10 ^ places : Nat)) : HasExactParts q := by
  have power : ((10 ^ places : Nat) : Int) ≠ 0 := Nat.cast_ne_zero.2 (Nat.pow_pos (by decide)).ne'
  have quotient : |q| = Rat.divInt digits (10 ^ places : Nat) := by
    rw [decimal, Rat.divInt_eq_div]
    rfl
  have numerator : (|q|).num.natAbs = q.num.natAbs := by
    rcases abs_choice q with same | same <;> simp [same]
  have denominator : (|q|).den = q.den := by
    rcases abs_choice q with same | same <;> simp [same]
  right
  constructor
  · have divides : q.num.natAbs ∣ digits := by
      rw [← numerator, ← Int.natAbs_natCast digits, Int.natAbs_dvd_natAbs, quotient]
      exact Rat.num_dvd _ power
    have small : q.num.natAbs < 2 ^ 53 := by
      rcases Nat.eq_zero_or_pos digits with zero | some
      · have none : |q| = 0 := by rw [decimal, zero, Nat.cast_zero, zero_div]
        rw [abs_eq_zero.1 none]
        decide
      · exact (Nat.le_of_dvd some divides).trans_lt few
    simpa using isExact_of_lt small (Nat.zero_le 971)
  · apply isExact_of_dvd_ten_pow short
    rw [← denominator, ← Int.natCast_dvd_natCast, quotient]
    exact Rat.den_dvd _ _

/-- If nothing is lost, the value of a shortest decimal is written as its number. -/
theorem exists_written_sameNumber {x : Binary64} {q : Rat} (decimal : x.shortestDecimal? = some q)
    (parts : HasExactParts q) : ∃ y, written q = .ok y ∧ y.SameNumber x := by
  cases x with
  | infinite | nan => cases decimal
  | finite negative m =>
    obtain ⟨absolute, sign⟩ := Binary64.sign_of_shortestDecimal? decimal
    have nearest := Binary64.roundUnits_of_shortestDecimal absolute
    have exact : IsExact q.den := by
      rcases parts with whole | parts
      · exact whole ▸ isExact_one
      · exact parts.2
    obtain ⟨numerator, above, quotient⟩ : ∃ numerator : Magnitude,
        roundUnits (q.num.natAbs * unitsPerOne) 1 = numerator.units ∧
          roundUnits numerator.units q.den = m.units := by
      rcases parts with whole | parts
      · rw [whole] at nearest ⊢
        exact ⟨m, nearest, m.roundUnits_units⟩
      · exact ⟨⟨_, parts.1⟩, Magnitude.roundUnits_units ⟨_, parts.1⟩, nearest⟩
    have below : roundUnits (q.den * unitsPerOne) 1 = q.den * unitsPerOne :=
      Magnitude.roundUnits_units ⟨_, exact⟩
    have scaled : roundUnits (numerator.units * unitsPerOne) (q.den * unitsPerOne) = m.units := by
      rw [← quotient]
      have one : 0 < unitsPerOne := Nat.two_pow_pos 1074
      apply roundUnits_congr (Nat.mul_pos q.den_pos one) q.den_pos
      rw [Nat.mul_assoc, Nat.mul_comm unitsPerOne]
    refine ⟨.finite (q.num < 0) m, ?_, rfl, sign⟩
    rw [written, integerNearest?, integerNearest?, Binary64.ofRatio_eq above,
      Binary64.ofRatio_eq (m := ⟨_, exact⟩) below]
    exact congrArg Except.ok (Binary64.ofRatio_eq scaled)

/-! ### Thresholds -/

/-- Some numbers satisfy the condition, and all that do give the name the same value. -/
structure Forces (satisfies : (Text → ℝ) → Prop) (name : Text) (x : ℝ) : Prop where
  once : ∃ v, satisfies v
  always : ∀ v, satisfies v → v name = x

/-- A number between two thresholds is not forced, since others lie between them as well. -/
theorem Forces.exists_threshold {t : Condition} (key : Comparison → Text)
    {threshold : Comparison → Rat} {name : Text} {x : ℝ}
    (forced : Forces (fun v => t.Holds fun c => c.operator.Relates (v (key c)) (threshold c)) name x) :
    ∃ c ∈ t.comparisons, key c = name ∧ (threshold c : ℝ) = x := by
  classical
  by_contra none
  push Not at none
  obtain ⟨v, holds⟩ := forced.once
  let behind := ((t.comparisons.map fun c => (threshold c : ℝ)).filter (x < ·)).toFinset
  have mem_behind : ∀ c ∈ t.comparisons, x < threshold c → (threshold c : ℝ) ∈ behind := by
    intro c member after
    simp only [behind, List.mem_toFinset, List.mem_filter, List.mem_map, decide_eq_true_eq]
    exact ⟨⟨c, member, rfl⟩, after⟩
  obtain ⟨y, above, below⟩ := Order.exists_between_finsets {x} behind (by simp [behind])
  have above : x < y := above x (Finset.mem_singleton_self x)
  have moved :
      t.Holds fun c => c.operator.Relates (Function.update v name y (key c)) (threshold c) := by
    refine (Condition.holds_congr fun c member => ?_).1 holds
    by_cases same : key c = name
    · rw [same, Function.update_self, forced.always v holds]
      apply Operator.relates_congr
      · exact ⟨fun after => below _ (mem_behind c member after), above.trans⟩
      · refine ⟨fun before => before.trans above, fun before => ?_⟩
        rcases lt_trichotomy x (threshold c) with after | on | earlier
        · exact absurd before (below _ (mem_behind c member after)).asymm
        · exact absurd on.symm (none c member same)
        · exact earlier
    · rw [Function.update_of_ne same]
  have stays := forced.always _ moved
  rw [Function.update_self] at stays
  exact absurd stays above.ne'

/-! ### Outcomes -/

theorem exists_of_mapM {α β ε : Type} {f : α → Except ε β} {xs : List α} {ys : List β}
    (found : xs.mapM f = .ok ys) : ∀ y ∈ ys, ∃ x ∈ xs, f x = .ok y := by
  induction xs generalizing ys with
  | nil =>
    cases found
    exact fun _ => nofun
  | cons x xs ih =>
    rw [List.mapM_cons] at found
    obtain ⟨y, first, found⟩ := bind_eq_ok found
    obtain ⟨others, rest, same⟩ := bind_eq_ok found
    cases same
    refine List.forall_mem_cons.2 ⟨⟨x, List.mem_cons_self, first⟩, fun y member => ?_⟩
    obtain ⟨x', inside, same⟩ := ih rest y member
    exact ⟨x', List.mem_cons_of_mem _ inside, same⟩

theorem written_of_valuesOf (value : Text → Rat) {references : List Text}
    {values : List (Text × Binary64)} (found : valuesOf value references = .ok values) :
    ∀ p ∈ values, written (value p.1) = .ok p.2 := by
  intro p member
  obtain ⟨r, -, same⟩ := exists_of_mapM found p member
  cases value : written (value r) with
  | error e =>
    rw [value] at same
    cases same
  | ok x =>
    rw [value] at same
    cases same
    exact value

/-- A witness is written from numbers that satisfy the condition. -/
theorem exists_values {t : Condition} (checked : ∀ c ∈ t.comparisons, c.IsChecked)
    {values : List (Text × Binary64)} (outcome : ofCondition t = .ok ⟨true, some values⟩) :
    ∃ v : Text → Rat,
      t.Holds (HoldsByName Comparison.checkedThreshold fun name => (v name : ℝ)) ∧
      ∀ p ∈ values, written (v (nameOf p.1)) = .ok p.2 := by
  generalize same : namesOf (referencesOf t.comparisons) = names
  have named : ∀ c ∈ t.comparisons, c.IsChecked ∧ nameOf c.reference ∈ names :=
    fun c member => ⟨checked c member, same ▸ nameOf_mem_namesOf member⟩
  rw [ofCondition_eq rfl same] at outcome
  obtain ⟨goal, found, outcome⟩ := bind_eq_ok outcome
  unfold ofConstraint at outcome
  split at outcome
  · cases outcome
  · rename_i box solved
    obtain ⟨values', found', same⟩ := bind_eq_ok outcome
    cases same
    exact ⟨fun name => box.value (names.idxOf name), holds_of_solved named found solved,
      written_of_valuesOf (fun r => box.value (names.idxOf (nameOf r))) found'⟩

/-- All thresholds are fractions with one denominator, and small enough that every value between
them can be written. -/
def AreModerate (cs : List Comparison) : Prop :=
  ∃ denominator bound, 0 < denominator ∧ denominator ≤ bound ∧
    2 * (bound + denominator) ≤ writtenLimit ∧
    ∀ c ∈ cs, IsFraction denominator bound c.checkedThreshold

/-- What a check makes of a reference to which the threshold of a comparison is forced. -/
inductive Recovered (cs : List Comparison) (reference : Text) (c : Comparison) :
    Except ConsistencyError Consistency → Prop
  | written {values : List (Text × Binary64)} {y : Binary64} :
      values.map Prod.fst = referencesOf cs → (reference, y) ∈ values →
      written c.checkedThreshold = .ok y →
      (HasExactParts c.checkedThreshold → y.SameNumber c.threshold) →
      Recovered cs reference c (.ok ⟨true, some values⟩)
  | tooLarge : ¬AreModerate cs → Recovered cs reference c (.error .witnessTooLarge)

theorem ofCondition_recovered {t : Condition} (checked : ∀ c ∈ t.comparisons, c.IsChecked)
    {reference : Text} (referred : reference ∈ referencesOf t.comparisons) {x : ℝ}
    (forced : Forces (fun v => t.Holds (HoldsByName Comparison.checkedThreshold v))
      (nameOf reference) x) :
    ∃ c ∈ t.comparisons, nameOf c.reference = nameOf reference ∧ (c.checkedThreshold : ℝ) = x ∧
      Recovered t.comparisons reference c (ofCondition t) := by
  obtain ⟨c, member, named, same⟩ :=
    forced.exists_threshold fun c => nameOf c.reference
  refine ⟨c, member, named, same, ?_⟩
  have judged := ofCondition_judged checked
  generalize found : ofCondition t = outcome at judged
  cases judged with
  | refuted never => exact absurd forced.once never
  | @solved values once references =>
    obtain ⟨v, holds, each⟩ := exists_values checked found
    obtain ⟨⟨r, y⟩, inside, rfl⟩ := List.mem_map.1 (references ▸ referred)
    have value : written (v (nameOf r)) = .ok y := each (r, y) inside
    have exact : v (nameOf r) = c.checkedThreshold := by
      have value := forced.always _ holds
      rw [← same] at value
      exact_mod_cast value
    rw [exact] at value
    refine .written references inside value fun parts => ?_
    obtain ⟨y', value', same⟩ := exists_written_sameNumber (checked c member).shortestDecimal? parts
    cases value.symm.trans value'
    exact same
  | tooLarge once =>
    refine .tooLarge fun moderate => ?_
    obtain ⟨k, b, positive, le, small, fractions⟩ := moderate
    obtain ⟨result, found'⟩ := exists_ofCondition_of_isFraction positive le small checked fractions
    cases found.symm.trans found'

/-! ### The check -/

/-- Every value that is forced to a reference is a threshold of it, and recovered. References are
told apart by their names, or as they are written. -/
def Recovers (name : Text → Text) (cs : List Comparison) (holds : (Comparison → Prop) → Prop)
    (outcome : Except ConsistencyError Consistency) : Prop :=
  ∀ reference ∈ referencesOf cs, ∀ x : ℝ,
    Forces (fun v => holds (Comparison.Holds Comparison.checkedThreshold (v ∘ name)))
      (name reference) x →
    ∃ c ∈ cs, name c.reference = name reference ∧ (c.checkedThreshold : ℝ) = x ∧
      Recovered cs reference c outcome

theorem ofDecomposition_recovers {d : Decomposition} (recognised : d.failed = false)
    (checked : ∀ c ∈ d.comparisons, c.IsChecked) :
    Recovers nameOf d.comparisons (fun atom => d.Holds atom) (ofDecomposition d) := by
  intro reference referred x forced
  have same := comparisons_conditionOf d
  simp only [← holds_conditionOf] at forced
  rw [← same] at checked referred
  rw [ofDecomposition_eq_conditionOf recognised, ← same]
  exact ofCondition_recovered checked referred forced

theorem Recovers.of_apart {cs : List Comparison} (apart : NamesApart cs)
    {holds : (Comparison → Prop) → Prop} {outcome : Except ConsistencyError Consistency}
    (congr : ∀ {atom other : Comparison → Prop}, (∀ c ∈ cs, atom c ↔ other c) →
      (holds atom ↔ holds other))
    (byName : Recovers nameOf cs holds outcome) : Recovers id cs holds outcome := by
  intro reference referred x forced
  have forced' : Forces (fun v => holds (HoldsByName Comparison.checkedThreshold v))
      (nameOf reference) x := by
    constructor
    · exact (exists_byName_iff apart _ congr).2 forced.once
    · intro v satisfied
      exact forced.always (v ∘ nameOf) satisfied
  obtain ⟨c, member, named, same, recovered⟩ := byName reference referred x forced'
  obtain ⟨c', member', rfl⟩ := mem_referencesOf.1 referred
  exact ⟨c, member, apart c member c' member' named, same, recovered⟩

/-- If all numbers that satisfy a rule give a reference the same value, then the check finds a
witness whose value for the reference is this threshold, where the threshold is an integer or a
quotient of two integers that are not rounded. Otherwise it is the quotient of the rounded ones.
Only thresholds of very different or extreme sizes keep a rule from having a witness. -/
theorem forced_exact {d : Decomposition} {t : Condition} (recognised : d.comparisons ≠ [])
    (checked : ∀ c ∈ d.comparisons ++ t.comparisons, c.IsChecked) :
    Recovers nameOf d.comparisons (fun atom => d.Holds atom) (ofDecomposition d) ∧
    Recovers nameOf t.comparisons (fun atom => t.Holds atom) (ofCondition t) ∧
    (NamesApart d.comparisons →
      Recovers id d.comparisons (fun atom => d.Holds atom) (ofDecomposition d)) ∧
    (NamesApart t.comparisons →
      Recovers id t.comparisons (fun atom => t.Holds atom) (ofCondition t)) := by
  obtain ⟨flat, nested⟩ := List.forall_mem_append.1 checked
  have group := ofDecomposition_recovers (by simpa [Decomposition.failed] using recognised) flat
  have tree : Recovers nameOf t.comparisons (fun atom => t.Holds atom) (ofCondition t) :=
    fun reference referred x forced => ofCondition_recovered nested referred forced
  exact ⟨group, tree, fun apart => group.of_apart apart holds_congr,
    fun apart => tree.of_apart apart Condition.holds_congr⟩

theorem forces_equation {c : Comparison} (equation : c.operator = .eq) (name : Text → Text) :
    Forces (fun v => (Decomposition.mk .none [c]).Holds
      (Comparison.Holds Comparison.checkedThreshold (v ∘ name))) (name c.reference)
      c.checkedThreshold := by
  have single : ∀ v : Text → ℝ, (Decomposition.mk .none [c]).Holds
      (Comparison.Holds Comparison.checkedThreshold (v ∘ name)) ↔
        v (name c.reference) = c.checkedThreshold := by
    intro v
    simp [Decomposition.Holds, Comparison.Holds, equation, Operator.Relates]
  constructor
  · exact ⟨fun _ => c.checkedThreshold, (single _).2 rfl⟩
  · exact fun v => (single v).1

end Consistency

namespace Sample

@[irreducible] def fraction (digits : Text) : Binary64 := (Numeral.mk ['0'] digits).nearest

/-- Written as `#level == 0.5`, with the given digits. -/
def equation (digits : Text) : Comparison :=
  ⟨"level".toList, .eq, fraction digits, '0' :: '.' :: digits⟩

def oneDigit : Text := ['5']

def sixteenDigits : Text := "09370378687915107".toList

theorem shortestDecimal?_fraction :
    (fraction oneDigit).shortestDecimal? = some (1 / 2) ∧
    (fraction sixteenDigits).shortestDecimal? = some (9370378687915107 / 10 ^ 17) := by
  decide +kernel

theorem isChecked_equation : ∀ digits ∈ [oneDigit, sixteenDigits], (equation digits).IsChecked := by
  have finite : ∀ digits ∈ [oneDigit, sixteenDigits], (fraction digits).isFinite = true := by
    decide +kernel
  exact fun digits member => ⟨fun _ => nofun, finite digits member⟩

end Sample

namespace Consistency

open Constraint (nameOf)
open Sample

theorem recovered_half : ∃ values y,
    ofDecomposition ⟨.none, [equation oneDigit]⟩ = .ok ⟨true, some values⟩ ∧
      ("level".toList, y) ∈ values ∧ y.SameNumber (fraction oneDigit) := by
  have value : (equation oneDigit).checkedThreshold = 1 / 2 :=
    congrArg (Option.getD · 0) shortestDecimal?_fraction.1
  have checked := isChecked_equation oneDigit (by decide)
  have apart : NamesApart [equation oneDigit] :=
    namesApart_of_not_mem (List.forall_mem_singleton.2 (by decide))
  have moderate : AreModerate [equation oneDigit] := by
    refine ⟨2, 2, by decide, by decide, by decide +kernel, List.forall_mem_singleton.2 ?_⟩
    exact ⟨1, by rw [value]; norm_num, by decide⟩
  have exact := forced_exact
    (d := ⟨.none, [equation oneDigit]⟩) (t := .comparison (equation oneDigit))
    (List.cons_ne_nil _ _) (List.forall_mem_cons.2 ⟨checked, List.forall_mem_singleton.2 checked⟩)
  obtain ⟨c, member, -, -, recovered⟩ :=
    exact.2.2.1 apart "level".toList (by decide) _ (forces_equation rfl id)
  obtain rfl := List.mem_singleton.1 member
  generalize ofDecomposition _ = outcome at recovered ⊢
  cases recovered with
  | written references inside written same =>
    refine ⟨_, _, rfl, inside, same ?_⟩
    rw [value]
    exact hasExactParts_of_short 5 1 (by decide) (by decide) (by norm_num)
  | tooLarge never => exact absurd moderate never

/-- The numerator has sixteen digits, and its last bit is lost. -/
theorem changed_sixteenDigits :
    decompose "#level == 0.09370378687915107".toList = ⟨.none, [equation sixteenDigits]⟩ ∧
    (equation sixteenDigits).IsChecked ∧
    (∃ x, Forces (fun v => (Decomposition.mk .none [equation sixteenDigits]).Holds
      (Comparison.Holds Comparison.checkedThreshold v)) "level".toList x) ∧
    ∃ values y, ofDecomposition ⟨.none, [equation sixteenDigits]⟩ = .ok ⟨true, some values⟩ ∧
      ("level".toList, y) ∈ values ∧ ¬y.SameNumber (fraction sixteenDigits) := by
  have value : (equation sixteenDigits).checkedThreshold = 9370378687915107 / 10 ^ 17 :=
    congrArg (Option.getD · 0) shortestDecimal?_fraction.2
  have checked := isChecked_equation sixteenDigits (by decide)
  refine ⟨by decide +kernel, checked, ⟨_, forces_equation rfl id⟩, ?_⟩
  have moderate : AreModerate [equation sixteenDigits] := by
    refine ⟨10 ^ 17, 10 ^ 17, by decide, by decide, by decide +kernel,
      List.forall_mem_singleton.2 ?_⟩
    exact ⟨9370378687915107, by rw [value]; norm_num, by decide⟩
  have recovers := ofDecomposition_recovers (d := ⟨.none, [equation sixteenDigits]⟩) rfl
    (List.forall_mem_singleton.2 checked)
  obtain ⟨c, member, -, -, recovered⟩ :=
    recovers "level".toList (by decide) _ (forces_equation rfl nameOf)
  obtain rfl := List.mem_singleton.1 member
  generalize ofDecomposition _ = outcome at recovered ⊢
  cases recovered with
  | written references inside found same =>
    refine ⟨_, _, rfl, inside, ?_⟩
    have next :
        written (9370378687915107 / 10 ^ 17) = .ok (fraction "09370378687915108".toList) := by
      decide +kernel
    rw [value, next] at found
    rw [← Except.ok.inj found]
    decide +kernel
  | tooLarge never => exact absurd moderate never

end Consistency

end ProgressRules

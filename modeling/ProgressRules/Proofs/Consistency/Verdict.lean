import Mathlib.Data.List.TakeWhile
import ProgressRules.Proofs.Consistency.Flat
import ProgressRules.Proofs.Consistency.Meaning

/-! The verdict of the consistency check. A condition is found satisfiable exactly if real numbers
satisfy it, and then every reference gets a value. References of one name share their number. -/

namespace ProgressRules

namespace Consistency

open Constraint (nameOf HoldsByName)

/-! ### Witnesses -/

theorem part_cases (x : Binary64) :
    (∃ m, part x = .ok m) ∨ part x = .error .witnessTooLarge := by
  cases x with
  | finite sign m => exact .inl ⟨_, rfl⟩
  | infinite | nan => exact .inr rfl

theorem written_cases (q : Rat) :
    (∃ x, written q = .ok x) ∨ written q = .error .witnessTooLarge := by
  unfold written integerNearest?
  rcases part_cases (.ofRatio (q.num < 0) q.num.natAbs 1) with ⟨m, same⟩ | same
  · rcases part_cases (.ofRatio false q.den 1) with ⟨m', same'⟩ | same'
    · rw [same, same']
      exact .inl ⟨_, rfl⟩
    · rw [same, same']
      exact .inr rfl
  · rw [same]
    exact .inr rfl

def valuesOf (value : Text → Rat) (references : List Text) :
    Except ConsistencyError (List (Text × Binary64)) :=
  references.mapM fun reference => do return (reference, ← written (value reference))

theorem valuesOf_cases (value : Text → Rat) (references : List Text) :
    (∃ values, valuesOf value references = .ok values ∧ values.map Prod.fst = references ∧
        ∀ r ∈ references, ∃ x, written (value r) = .ok x) ∨
      valuesOf value references = .error .witnessTooLarge ∧
        ∃ r ∈ references, written (value r) = .error .witnessTooLarge := by
  induction references with
  | nil => exact .inl ⟨[], rfl, rfl, fun _ => nofun⟩
  | cons r rs ih =>
    unfold valuesOf at ih ⊢
    rw [List.mapM_cons]
    rcases written_cases (value r) with ⟨x, first⟩ | first
    · rw [first]
      rcases ih with ⟨values, found, same, each⟩ | ⟨failed, r', member, large⟩
      · rw [found]
        exact .inl ⟨(r, x) :: values, rfl, by rw [List.map_cons, same],
          List.forall_mem_cons.2 ⟨⟨x, first⟩, each⟩⟩
      · rw [failed]
        exact .inr ⟨rfl, r', List.mem_cons_of_mem _ member, large⟩
    · exact .inr ⟨by rw [first]; rfl, r, List.mem_cons_self, first⟩

/-! ### Verdicts -/

/-- The outcome of a check is right about whether a condition on the references is satisfiable.
Only a witness that is too large to be written keeps a satisfiable condition from a verdict. -/
inductive Judged (references : List Text) (satisfiable : Prop) :
    Except ConsistencyError Consistency → Prop
  | refuted : ¬satisfiable → Judged references satisfiable (.ok ⟨false, none⟩)
  | solved {values : List (Text × Binary64)} : satisfiable → values.map Prod.fst = references →
      Judged references satisfiable (.ok ⟨true, some values⟩)
  | tooLarge : satisfiable → Judged references satisfiable (.error .witnessTooLarge)

theorem Judged.congr {references : List Text} {satisfiable other : Prop}
    {outcome : Except ConsistencyError Consistency} (h : Judged references satisfiable outcome)
    (same : satisfiable ↔ other) : Judged references other outcome :=
  propext same ▸ h

theorem Judged.eq_refuted {references : List Text} {satisfiable : Prop}
    {outcome : Except ConsistencyError Consistency} (h : Judged references satisfiable outcome)
    (never : ¬satisfiable) : outcome = .ok ⟨false, none⟩ := by
  cases h with
  | refuted => rfl
  | solved once | tooLarge once => exact absurd once never

/-- What a check makes of the outcome of its search. -/
theorem ofConstraint_cases (references names : List Text) (goal : Constraint) :
    (∃ grounds, goal.solve names.length = .refuted grounds ∧
      ofConstraint references names goal = .ok ⟨false, none⟩) ∨
    ∃ box, goal.solve names.length = .solved box ∧
      ((∃ values, ofConstraint references names goal = .ok ⟨true, some values⟩ ∧
          values.map Prod.fst = references ∧
          ∀ r ∈ references, ∃ x, written (box.value (names.idxOf (nameOf r))) = .ok x) ∨
        ofConstraint references names goal = .error .witnessTooLarge ∧
          ∃ r ∈ references,
            written (box.value (names.idxOf (nameOf r))) = .error .witnessTooLarge) := by
  unfold ofConstraint
  cases found : goal.solve names.length with
  | refuted grounds => exact .inl ⟨grounds, rfl, rfl⟩
  | solved box =>
    refine .inr ⟨box, rfl, ?_⟩
    rcases valuesOf_cases (fun r => box.value (names.idxOf (nameOf r))) references with
      ⟨values, found, same⟩ | ⟨failed, large⟩
    · simp only [valuesOf] at found
      simp only [found]
      exact .inl ⟨values, rfl, same⟩
    · simp only [valuesOf] at failed
      simp only [failed]
      exact .inr ⟨rfl, large⟩

theorem ofConstraint_judged {references names : List Text} {goal : Constraint} {satisfiable : Prop}
    (solved : ∀ box, goal.solve names.length = .solved box → satisfiable)
    (refuted : ∀ grounds, goal.solve names.length = .refuted grounds → ¬satisfiable) :
    Judged references satisfiable (ofConstraint references names goal) := by
  rcases ofConstraint_cases references names goal with
    ⟨grounds, found, verdict⟩ | ⟨box, found, ⟨values, verdict, same, -⟩ | ⟨verdict, -⟩⟩
  · rw [verdict]
    exact .refuted (refuted grounds found)
  · rw [verdict]
    exact .solved (solved box found) same
  · rw [verdict]
    exact .tooLarge (solved box found)

theorem nameOf_mem_namesOf {cs : List Comparison} {c : Comparison} (member : c ∈ cs) :
    nameOf c.reference ∈ namesOf (referencesOf cs) := by
  simp only [namesOf, referencesOf, List.mem_eraseDups, List.mem_map]
  exact ⟨c.reference, ⟨c, member, rfl⟩, rfl⟩

/-- The values of the box that is found for a condition satisfy it. -/
theorem holds_of_solved {t : Condition} {names : List Text} {goal : Constraint} {box : Box}
    (named : ∀ c ∈ t.comparisons, c.IsChecked ∧ nameOf c.reference ∈ names)
    (found : Constraint.ofCondition names true t = .ok goal)
    (solved : goal.solve names.length = .solved box) :
    t.Holds (HoldsByName Comparison.checkedThreshold
      fun name => (box.value (names.idxOf name) : ℝ)) := by
  obtain ⟨goal', found', below, truth⟩ := Constraint.ofCondition_exact true named
  cases found.symm.trans found'
  have exact := Constraint.solve_exact below
  rw [solved] at exact
  have represents := truth (fun name => box.value (names.idxOf name)) box.value
    fun c member => SameSide.refl _ _
  exact (represents.1 exact).2 rfl

theorem ofCondition_judged {t : Condition} (checked : ∀ c ∈ t.comparisons, c.IsChecked) :
    Judged (referencesOf t.comparisons)
      (∃ v : Text → ℝ, t.Holds (HoldsByName Comparison.checkedThreshold v)) (ofCondition t) := by
  generalize same : namesOf (referencesOf t.comparisons) = names
  have named : ∀ c ∈ t.comparisons, c.IsChecked ∧ nameOf c.reference ∈ names :=
    fun c member => ⟨checked c member, same ▸ nameOf_mem_namesOf member⟩
  obtain ⟨goal, found, below, truth⟩ := Constraint.ofCondition_exact true named
  have exact := Constraint.solve_exact below
  rw [ofCondition_eq rfl same, found]
  refine ofConstraint_judged (fun box solved => ⟨_, holds_of_solved named found solved⟩)
    fun grounds refuted => ?_
  rw [refuted] at exact
  rintro ⟨v, holds⟩
  -- samples of the numbers satisfy the condition as well
  choose sample _ same using exists_sample (t.comparisons.map Comparison.checkedThreshold)
  have represents := truth v (fun unknown => sample (v (names.getD unknown [])))
    fun c member => ?_
  · exact exact _ (represents.2 ⟨fun _ => rfl, fun _ => holds⟩)
  · have number : names.getD (names.idxOf (nameOf c.reference)) [] = nameOf c.reference := by
      have bound := List.idxOf_lt_length_of_mem (named c member).2
      rw [List.getD_eq_getElem?_getD, List.getElem?_eq_getElem bound]
      exact List.getElem_idxOf bound
    rw [Constraint.Represents, number]
    exact same _ _ (List.mem_map_of_mem member)

/-! ### Flat groups -/

theorem holds_conditionOf (atom : Comparison → Prop) (d : Decomposition) :
    (conditionOf d).Holds atom ↔ d.Holds atom := by
  unfold conditionOf Decomposition.Holds
  split
  · exact Condition.allHold_comparisons
  · exact Condition.anyHolds_comparisons

theorem ofDecomposition_judged {d : Decomposition} (recognised : d.failed = false)
    (checked : ∀ c ∈ d.comparisons, c.IsChecked) :
    Judged (referencesOf d.comparisons)
      (∃ v : Text → ℝ, d.Holds (HoldsByName Comparison.checkedThreshold v))
      (ofDecomposition d) := by
  have judged : Judged (referencesOf (conditionOf d).comparisons)
      (∃ v : Text → ℝ, (conditionOf d).Holds (HoldsByName Comparison.checkedThreshold v))
      (ofCondition (conditionOf d)) :=
    ofCondition_judged (comparisons_conditionOf d ▸ checked)
  rw [comparisons_conditionOf, ← ofDecomposition_eq_conditionOf recognised] at judged
  exact judged.congr (exists_congr fun v => holds_conditionOf _ d)

/-! ### References and their names -/

def NamesApart (cs : List Comparison) : Prop :=
  ∀ c ∈ cs, ∀ c' ∈ cs, nameOf c.reference = nameOf c'.reference → c.reference = c'.reference

theorem nameOf_eq_self {reference : Text} (h : Char.ofNat 0 ∉ reference) :
    nameOf reference = reference := by
  refine List.takeWhile_eq_self_iff.2 fun c member => ?_
  simpa using ne_of_mem_of_not_mem member h

theorem namesApart_of_not_mem {cs : List Comparison}
    (h : ∀ c ∈ cs, Char.ofNat 0 ∉ c.reference) : NamesApart cs := by
  intro c member c' member' same
  rwa [nameOf_eq_self (h c member), nameOf_eq_self (h c' member')] at same

/-- Numbers for names are numbers for references, if the names tell the references apart. -/
theorem exists_byName_iff {cs : List Comparison} (apart : NamesApart cs)
    (threshold : Comparison → Rat) {holds : (Comparison → Prop) → Prop}
    (congr : ∀ {atom other : Comparison → Prop}, (∀ c ∈ cs, atom c ↔ other c) →
      (holds atom ↔ holds other)) :
    (∃ v : Text → ℝ, holds (HoldsByName threshold v)) ↔
      ∃ v : Text → ℝ, holds (Comparison.Holds threshold v) := by
  constructor
  · rintro ⟨v, h⟩
    exact ⟨v ∘ nameOf, h⟩
  · rintro ⟨v, h⟩
    -- the number of a name is that of the reference that has it
    have numbers : ∀ name, ∃ x : ℝ, ∀ c ∈ cs, nameOf c.reference = name → v c.reference = x := by
      intro name
      by_cases some : ∃ c ∈ cs, nameOf c.reference = name
      · obtain ⟨c, member, rfl⟩ := some
        exact ⟨v c.reference, fun c' member' same =>
          congrArg v (apart c' member' c member same)⟩
      · exact ⟨0, fun c member same => absurd ⟨c, member, same⟩ some⟩
    choose w same using numbers
    refine ⟨w, (congr fun c member => ?_).2 h⟩
    rw [HoldsByName, Comparison.Holds, Comparison.Holds, Function.comp_apply,
      ← same _ c member rfl]

theorem holds_congr {d : Decomposition} {atom other : Comparison → Prop}
    (same : ∀ c ∈ d.comparisons, atom c ↔ other c) : d.Holds atom ↔ d.Holds other := by
  rw [← holds_conditionOf, ← holds_conditionOf]
  exact Condition.holds_congr (comparisons_conditionOf d ▸ same)

/-! ### The check -/

/-- The check finds exactly the satisfiable rules satisfiable, and gives each reference a value in
order of first appearance. It knows a reference by its name alone, so that two references are
taken for one if they differ behind a null character only. -/
theorem check_exact {d : Decomposition} {t : Condition} (recognised : d.comparisons ≠ [])
    (checked : ∀ c ∈ d.comparisons ++ t.comparisons, c.IsChecked) :
    Judged (referencesOf d.comparisons)
      (∃ v : Text → ℝ, d.Holds (HoldsByName Comparison.checkedThreshold v))
      (ofDecomposition d) ∧
    Judged (referencesOf t.comparisons)
      (∃ v : Text → ℝ, t.Holds (HoldsByName Comparison.checkedThreshold v))
      (ofCondition t) ∧
    (NamesApart d.comparisons → Judged (referencesOf d.comparisons)
      (∃ v : Text → ℝ, d.Holds (Comparison.Holds Comparison.checkedThreshold v))
      (ofDecomposition d)) ∧
    (NamesApart t.comparisons → Judged (referencesOf t.comparisons)
      (∃ v : Text → ℝ, t.Holds (Comparison.Holds Comparison.checkedThreshold v))
      (ofCondition t)) := by
  obtain ⟨flat, nested⟩ := List.forall_mem_append.1 checked
  have group := ofDecomposition_judged (by simpa [Decomposition.failed] using recognised) flat
  have tree := ofCondition_judged nested
  exact ⟨group, tree, fun apart => group.congr (exists_byName_iff apart _ holds_congr),
    fun apart => tree.congr (exists_byName_iff apart _ Condition.holds_congr)⟩

end Consistency

namespace Sample

@[irreducible] def typed (digit : Char) : Binary64 := (Numeral.mk [digit] []).nearest

theorem isFinite_typed : ∀ digit ∈ ['1', '2', '5'], (typed digit).isFinite = true := by
  decide +kernel

theorem shortestDecimal?_typed :
    (typed '1').shortestDecimal? = some 1 ∧ (typed '2').shortestDecimal? = some 2 := by
  decide +kernel

/-- Written as `#level>=5`, with the given operator. -/
def against (operator : Operator) : Comparison := ⟨"level".toList, operator, typed '5', ['5']⟩

/-- References that differ behind a null character are compared with different numbers. -/
def shared (last digit : Char) : Comparison :=
  ⟨"a['x\x00".toList ++ [last, '\'', ']'], .eq, typed digit, [digit]⟩

def sharedGroup : Decomposition := ⟨.and, [shared 'y' '1', shared 'z' '2']⟩

theorem isChecked_sharedGroup : ∀ c ∈ sharedGroup.comparisons, c.IsChecked := by
  refine List.forall_mem_cons.2 ⟨⟨fun _ => nofun, ?_⟩, List.forall_mem_singleton.2
    ⟨fun _ => nofun, ?_⟩⟩
  · exact isFinite_typed '1' (by decide)
  · exact isFinite_typed '2' (by decide)

theorem holds_sharedGroup (v : Text → ℝ) :
    sharedGroup.Holds (Comparison.Holds Comparison.checkedThreshold v) ↔
      v (shared 'y' '1').reference = 1 ∧ v (shared 'z' '2').reference = 2 := by
  have one : (shared 'y' '1').checkedThreshold = 1 :=
    congrArg (Option.getD · 0) shortestDecimal?_typed.1
  have two : (shared 'z' '2').checkedThreshold = 2 :=
    congrArg (Option.getD · 0) shortestDecimal?_typed.2
  have both : sharedGroup.Holds (Comparison.Holds Comparison.checkedThreshold v) ↔
      v (shared 'y' '1').reference = ((shared 'y' '1').checkedThreshold : ℝ) ∧
      v (shared 'z' '2').reference = ((shared 'z' '2').checkedThreshold : ℝ) :=
    List.forall_mem_cons.trans (and_congr_right' List.forall_mem_singleton)
  rw [both, one, two, Rat.cast_one, Rat.cast_ofNat]

end Sample

namespace Consistency

open Constraint (nameOf HoldsByName)
open Sample

/-- A threshold cannot be both reached and missed, but it can be missed. -/
theorem check_opposites :
    ofDecomposition ⟨.and, [against .ge, against .lt]⟩ = .ok ⟨false, none⟩ ∧
    Judged ["level".toList]
      (∃ v : Text → ℝ, (Condition.not (.comparison (against .ge))).Holds
        (Comparison.Holds Comparison.checkedThreshold v))
      (ofCondition (.not (.comparison (against .ge)))) := by
  have checked : ∀ c ∈ [against .ge, against .lt, against .ge], c.IsChecked := by
    intro c member
    simp only [List.mem_cons, List.not_mem_nil, or_false] at member
    rcases member with rfl | rfl | rfl <;>
      exact ⟨fun _ => nofun, isFinite_typed '5' (by decide)⟩
  have apart : NamesApart [against .ge] :=
    namesApart_of_not_mem (List.forall_mem_singleton.2 (by decide))
  have never : ¬∃ v : Text → ℝ, (Decomposition.mk .and [against .ge, against .lt]).Holds
      (HoldsByName Comparison.checkedThreshold v) := by
    rintro ⟨v, holds⟩
    obtain ⟨reached, others⟩ := List.forall_mem_cons.1 holds
    have missed : HoldsByName Comparison.checkedThreshold v (against .lt) :=
      List.forall_mem_singleton.1 others
    exact not_le.2 missed reached
  have exact := check_exact (d := ⟨.and, [against .ge, against .lt]⟩)
    (t := .not (.comparison (against .ge))) (List.cons_ne_nil _ _) checked
  exact ⟨exact.1.eq_refuted never, exact.2.2.2 apart⟩

/-- Both comparisons can hold, and the check does not tell their references apart. -/
theorem refuted_of_shared_name :
    decompose "#a['x\x00y'] == 1 && #a['x\x00z'] == 2".toList = sharedGroup ∧
    (∀ c ∈ sharedGroup.comparisons, c.IsChecked) ∧
    (∃ v : Text → ℝ, sharedGroup.Holds (Comparison.Holds Comparison.checkedThreshold v)) ∧
    ofDecomposition sharedGroup = .ok ⟨false, none⟩ := by
  refine ⟨by decide +kernel, isChecked_sharedGroup, ?_, ?_⟩
  · have other : (shared 'z' '2').reference ≠ (shared 'y' '1').reference := by decide
    exact ⟨fun r => if r = (shared 'y' '1').reference then 1 else 2,
      (holds_sharedGroup _).2 ⟨if_pos rfl, if_neg other⟩⟩
  · have name : nameOf (shared 'y' '1').reference = nameOf (shared 'z' '2').reference := by decide
    have never : ¬∃ v : Text → ℝ,
        sharedGroup.Holds (HoldsByName Comparison.checkedThreshold v) := by
      rintro ⟨v, holds⟩
      obtain ⟨one, two⟩ := (holds_sharedGroup (v ∘ nameOf)).1 holds
      rw [Function.comp_apply, name] at one
      exact absurd (one.symm.trans two) (by norm_num)
    have recognised : sharedGroup.failed = false := rfl
    exact (ofDecomposition_judged recognised isChecked_sharedGroup).eq_refuted never

end Consistency

end ProgressRules

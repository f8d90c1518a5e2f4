import ProgressRules.Proofs.Formula.Fulfilment

/-! The range of progress. Progress lies between zero and one hundred where no value is negative;
a negation swaps the two bounds, so that they are carried together through a condition. Without
negations progress is at most one hundred for all values, and it does not fall when values
rise. -/

namespace ProgressRules

/-! ### Extrema -/

namespace Extremum

theorem le_among {bound : Rat} {xs : List Rat} (f : Extremum) (nonempty : xs ≠ [])
    (above : ∀ x ∈ xs, bound ≤ x) : bound ≤ f.among xs := by
  induction xs with
  | nil => exact absurd rfl nonempty
  | cons x xs ih =>
    obtain ⟨first, others⟩ := List.forall_mem_cons.1 above
    cases xs with
    | nil => exact first
    | cons y ys =>
      rw [f.among_cons x (List.cons_ne_nil y ys)]
      have rest := ih (List.cons_ne_nil y ys) others
      cases f with
      | least => exact le_min first rest
      | greatest => exact le_max_of_le_left first

theorem among_range (f : Extremum) {lower upper : Rat} {xs : List Rat} (nonempty : xs ≠ [])
    (range : ∀ x ∈ xs, lower ≤ x ∧ x ≤ upper) : lower ≤ f.among xs ∧ f.among xs ≤ upper :=
  ⟨f.le_among nonempty fun x member => (range x member).1,
    f.among_le nonempty fun x member => (range x member).2⟩

theorem apply_mono (f : Extremum) {x x' y y' : Rat} (hx : x ≤ x') (hy : y ≤ y') :
    f.apply x y ≤ f.apply x' y' := by
  cases f with
  | least => exact min_le_min hx hy
  | greatest => exact max_le_max hx hy

theorem among_mono (f : Extremum) {xs ys : List Rat} (h : List.Forall₂ (· ≤ ·) xs ys) :
    f.among xs ≤ f.among ys := by
  induction h with
  | nil => exact le_refl _
  | @cons x y xs ys first others ih =>
    cases others with
    | nil => exact first
    | cons second others =>
      rw [f.among_cons x (List.cons_ne_nil _ _), f.among_cons y (List.cons_ne_nil _ _)]
      exact f.apply_mono first ih

end Extremum

/-! ### Comparisons -/

theorem Numeral.value_nonneg (n : Numeral) : 0 ≤ n.value :=
  div_nonneg (Nat.cast_nonneg _) (Nat.cast_nonneg _)

namespace Comparison

theorem typedThreshold_nonneg (c : Comparison) : 0 ≤ c.typedThreshold := by
  unfold typedThreshold
  split
  · exact Numeral.value_nonneg _
  · exact le_refl 0

theorem progress_nonneg {v : Text → Rat} {c : Comparison} (nonneg : 0 ≤ v c.reference) :
    0 ≤ c.progress v := by
  have scaled : 0 ≤ 100 * v c.reference / c.typedThreshold :=
    div_nonneg (mul_nonneg (by norm_num) nonneg) c.typedThreshold_nonneg
  exact le_min scaled (by norm_num)

theorem progress_mono {v v' : Text → Rat} {c : Comparison}
    (raised : v c.reference ≤ v' c.reference) : c.progress v ≤ c.progress v' := by
  have scaled : 100 * v c.reference / c.typedThreshold ≤ 100 * v' c.reference / c.typedThreshold :=
    div_le_div_of_nonneg_right (mul_le_mul_of_nonneg_left raised (by norm_num))
      c.typedThreshold_nonneg
  exact min_le_min_right 100 scaled

end Comparison

/-! ### Conditions -/

namespace Condition

theorem progressOfAll_eq_map (v : Text → Rat) (ts : List Condition) :
    progressOfAll v ts = ts.map (progress v) := by
  induction ts with
  | nil => rfl
  | cons t ts ih => rw [progressOfAll, ih, List.map_cons]

theorem progressOfAll_ne_nil {ts : List Condition} (several : 2 ≤ ts.length) (v : Text → Rat) :
    progressOfAll v ts ≠ [] := by
  rw [progressOfAll_eq_map]
  exact List.ne_nil_of_length_pos (by rw [List.length_map]; omega)

variable {p : Comparison → Prop} {v v' : Text → Rat}

mutual

theorem progress_range {t : Condition} (regular : t.IsRegular p)
    (nonneg : ∀ c ∈ t.comparisons, 0 ≤ v c.reference) :
    0 ≤ t.progress v ∧ t.progress v ≤ 100 := by
  match t with
  | .comparison c =>
    exact ⟨Comparison.progress_nonneg (nonneg c List.mem_cons_self), c.progress_le v⟩
  | .and children | .or children =>
    exact Extremum.among_range _ (progressOfAll_ne_nil regular.1 v)
      (progressOfAll_range regular.2 nonneg)
  | .not child =>
    have inside : child.IsRegular p := regular
    -- the lower bound comes from the upper one of the operand, and the other way round
    obtain ⟨lower, upper⟩ := progress_range inside nonneg
    exact ⟨sub_nonneg.2 upper, sub_le_self _ lower⟩

theorem progressOfAll_range {ts : List Condition} (regular : AllRegular p ts)
    (nonneg : ∀ c ∈ comparisonsOfAll ts, 0 ≤ v c.reference) :
    ∀ x ∈ progressOfAll v ts, 0 ≤ x ∧ x ≤ 100 := by
  match ts with
  | [] => exact fun _ => nofun
  | t :: ts =>
    obtain ⟨first, others⟩ := List.forall_mem_append.1 nonneg
    exact List.forall_mem_cons.2
      ⟨progress_range regular.1 first, progressOfAll_range regular.2 others⟩

end

mutual

theorem progress_mono {t : Condition} (unnegated : t.Unnegated)
    (raised : ∀ c ∈ t.comparisons, v c.reference ≤ v' c.reference) :
    t.progress v ≤ t.progress v' := by
  match t with
  | .comparison c => exact Comparison.progress_mono (raised c List.mem_cons_self)
  | .and children | .or children => exact Extremum.among_mono _ (progressOfAll_mono unnegated raised)
  | .not child => exact unnegated.elim

theorem progressOfAll_mono {ts : List Condition} (unnegated : AllUnnegated ts)
    (raised : ∀ c ∈ comparisonsOfAll ts, v c.reference ≤ v' c.reference) :
    List.Forall₂ (· ≤ ·) (progressOfAll v ts) (progressOfAll v' ts) := by
  match ts with
  | [] => exact .nil
  | t :: ts =>
    obtain ⟨first, others⟩ := List.forall_mem_append.1 raised
    exact .cons (progress_mono unnegated.1 first) (progressOfAll_mono unnegated.2 others)

end

end Condition

/-! ### Formulas -/

namespace Formula

open Expression (IsPrefix IsReading)

/-- A condition whose thresholds are not rounded to zero has a formula with one reading. Its value
is a percentage where no value is negative; without negations it is at most one hundred for all
values, and it does not fall when values rise. -/
theorem percentage_of_condition (binaryCalls : Bool) {t : Condition}
    (written : t.IsRegular Comparison.IsWritten)
    (scaled : ∀ c ∈ t.comparisons, c.threshold.nonpositive = false) :
    ∃ f value, ofCondition binaryCalls t = .ok (some f) ∧
      (∀ d : Decomposition, d.StandsFor t → ofDecomposition binaryCalls d = .ok (some f)) ∧
      (∀ functionPrefix, IsPrefix functionPrefix →
        HasOneReading functionPrefix (textOf functionPrefix (some f)) value) ∧
      (∀ v, (∀ c ∈ t.comparisons, 0 ≤ v c.reference) → 0 ≤ value v ∧ value v ≤ 100) ∧
      (t.Unnegated → (∀ v, value v ≤ 100) ∧
        ∀ v v', (∀ c ∈ t.comparisons, v c.reference ≤ v' c.reference) → value v ≤ value v') := by
  have positive : ∀ c ∈ t.comparisons, 0 < c.typedThreshold := fun c member =>
    typedThreshold_pos (written.of_mem c member) (scaled c member)
  obtain ⟨g, formula, -⟩ := ofCondition_means [] binaryCalls written
  cases g with
  | none => exact absurd formula (ofCondition_ne_none binaryCalls scaled)
  | some f =>
    refine ⟨f, fun v => t.progress v, formula, fun d standsFor => ?_, fun functionPrefix told => ?_,
      fun v nonneg => Condition.progress_range written nonneg, fun unnegated => ⟨fun v => ?_,
      fun v v' raised => Condition.progress_mono unnegated raised⟩⟩
    · rw [ofDecomposition_eq_ofCondition standsFor, formula]
    · obtain ⟨g, formula', means⟩ := ofCondition_means functionPrefix binaryCalls written
      rw [formula] at formula'
      exact (means f (Except.ok.inj formula').symm).hasOneReading told
    · exact (Condition.progress_full written unnegated positive).1

end Formula

namespace Sample

/-- Progress towards the one operand is what is missing of the other. -/
def reachedOrNot : Condition := .or [.not reachingAll, reachingAll]

theorem reachedOrNot_isRegular : reachedOrNot.IsRegular Comparison.IsWritten :=
  ⟨by decide, reachingAll_isRegular, reachingAll_isRegular, trivial⟩

/-- Only one of the two thresholds is rounded to zero. -/
def levelOrTiny : Condition :=
  .or [.comparison (reaching "level".toList ⟨['5'], []⟩).comparison, .comparison tiny.comparison]

end Sample

namespace Formula

open Expression (IsPrefix IsReading)
open Sample (reaching tiny reachingAll reachedOrNot levelOrTiny)

theorem percentage_of_reachedOrNot :
    (∃ f value, ofCondition true reachedOrNot = .ok (some f) ∧
      HasOneReading "T(Math).".toList (textOf "T(Math).".toList (some f)) value ∧
      0 ≤ value (fun _ => 3) ∧ value (fun _ => 3) ≤ 100) ∧
    ∃ f value, ofCondition true reachingAll = .ok (some f) ∧
      HasOneReading "T(Math).".toList (textOf "T(Math).".toList (some f)) value ∧
      value (fun _ => -3) ≤ value (fun _ => 3) ∧ value (fun _ => 300) ≤ 100 := by
  have told : IsPrefix "T(Math).".toList := isPrefix_of_mem (by decide)
  have unnegated : reachingAll.Unnegated := ⟨⟨trivial, trivial, trivial⟩, trivial, trivial⟩
  constructor
  · obtain ⟨f, value, formula, -, reading, range, -⟩ :=
      percentage_of_condition true Sample.reachedOrNot_isRegular (by decide +kernel)
    exact ⟨f, value, formula, reading _ told, range _ fun _ _ => by decide⟩
  · obtain ⟨f, value, formula, -, reading, -, rising⟩ :=
      percentage_of_condition true Sample.reachingAll_isRegular (by decide +kernel)
    obtain ⟨upper, mono⟩ := rising unnegated
    exact ⟨f, value, formula, reading _ told, mono _ _ fun _ _ => by decide, upper _⟩

/-- A single threshold that is rounded to zero leaves the whole condition without a formula, and so
without a value. -/
theorem no_percentage_though_positive :
    levelOrTiny.IsRegular Comparison.IsWritten ∧
      (∀ c ∈ levelOrTiny.comparisons, 0 < c.typedThreshold) ∧
      ofCondition false levelOrTiny = .ok none ∧ ∀ e, ¬IsReading [] e (textOf [] none) := by
  have level : (reaching "level".toList ⟨['5'], []⟩).comparison.IsWritten :=
    Sample.reachingAll_isRegular.of_mem _ List.mem_cons_self
  have blank := Text.blank_space
  have small : tiny.comparison.IsWritten :=
    ⟨tiny, ⟨⟨⟨by decide, by decide⟩, nofun⟩, blank, fun _ => nofun, blank,
      ⟨⟨by decide, by decide⟩, by decide +kernel⟩⟩, rfl⟩
  have kept : ∃ f, ofComparison? (reaching "level".toList ⟨['5'], []⟩).comparison = some f :=
    Option.isSome_iff_exists.1 (by decide +kernel)
  have refused : ofComparison? tiny.comparison = none :=
    Option.isNone_iff_eq_none.1 (by decide +kernel)
  refine ⟨⟨by decide, level, small, trivial⟩, by decide +kernel, ?_, fun e =>
    Expression.not_isReading_nil (Text.stops_nil _) e⟩
  obtain ⟨f, kept⟩ := kept
  have formulas := ofConditions_comparisons false
    [(reaching "level".toList ⟨['5'], []⟩).comparison, tiny.comparison]
  rw [List.mapM_cons, List.mapM_cons, kept, refused] at formulas
  exact ofCondition_or formulas

end Formula

end ProgressRules

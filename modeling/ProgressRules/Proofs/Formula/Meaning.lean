import ProgressRules.Proofs.Binary64.Rounding
import ProgressRules.Proofs.Condition.Tokens
import ProgressRules.Proofs.Formula.Flat
import ProgressRules.Proofs.Formula.Progress

/-! The meaning of formulas. The text of a condition's formula has exactly one reading, and this
evaluates to the progress of the condition. -/

namespace ProgressRules

open Text (Blank)

/-! ### Texts of formulas -/

namespace Formula

@[simp] theorem text_progress (functionPrefix reference divisor : Text) :
    (progress reference divisor).text functionPrefix =
      application (functionName functionPrefix .least)
        ['#' :: reference ++ " * 100 / ".toList ++ divisor, "100".toList] := rfl

@[simp] theorem text_complement (functionPrefix : Text) (inner : Formula) :
    (complement inner).text functionPrefix =
      "(100 - ".toList ++ inner.text functionPrefix ++ [')'] := rfl

@[simp] theorem text_call (functionPrefix : Text) (function : Extremum) (fs : List Formula) :
    (call function fs).text functionPrefix =
      application (functionName functionPrefix function) (texts functionPrefix fs) := rfl

@[simp] theorem texts_nil (functionPrefix : Text) : texts functionPrefix [] = [] := rfl

@[simp] theorem texts_cons (functionPrefix : Text) (f : Formula) (fs : List Formula) :
    texts functionPrefix (f :: fs) = f.text functionPrefix :: texts functionPrefix fs := rfl

end Formula

namespace Expression

variable {functionPrefix : Text}

theorem Writes.product_of_operand {e : Expression} {text : Text}
    (h : Writes functionPrefix (.operand e) text) : Writes functionPrefix (.product e) text := by
  simpa using Writes.product h .noFactor

theorem Writes.sum_of_operand {e : Expression} {text : Text}
    (h : Writes functionPrefix (.operand e) text) : Writes functionPrefix (.sum e) text := by
  simpa using Writes.sum h.product_of_operand .noTerm

inductive WritesAll (functionPrefix : Text) : List Expression → List Text → Prop where
  | nil : WritesAll functionPrefix [] []
  | cons {e : Expression} {es : List Expression} {text : Text} {texts : List Text} :
      Writes functionPrefix (.operand e) text → WritesAll functionPrefix es texts →
        WritesAll functionPrefix (e :: es) (text :: texts)

theorem Writes.isReading {e : Expression} {text : Text}
    (h : Writes functionPrefix (.operand e) text) : IsReading functionPrefix e text :=
  ⟨[], text, [], Text.blank_nil, Text.blank_nil, h.sum_of_operand, by simp⟩

theorem WritesAll.arguments {es : List Expression} {texts : List Text}
    (h : WritesAll functionPrefix es texts) (nonempty : es ≠ []) :
    Writes functionPrefix (.arguments es) (Text.joinWith ", ".toList texts) := by
  induction h with
  | nil => exact absurd rfl nonempty
  | @cons e es text texts first others ih =>
    cases others with
    | nil => simpa [Text.joinWith] using Writes.one first.sum_of_operand
    | @cons e' es text' texts second others =>
      have more := Writes.more Text.blank_nil Text.blank_space first.sum_of_operand (ih (by simp))
      simpa [Text.joinWith] using more

theorem WritesAll.call {es : List Expression} {texts : List Text}
    (h : WritesAll functionPrefix es texts) (nonempty : es ≠ []) (f : Extremum) :
    Writes functionPrefix (.operand (.call f es))
      (Formula.application (Formula.functionName functionPrefix f) texts) := by
  simpa [Formula.application] using
    Writes.call f Text.blank_nil Text.blank_nil (h.arguments nonempty)

def hundred : Numeral := ⟨"100".toList, []⟩

theorem writes_hundred : Writes functionPrefix (.operand (.number hundred)) "100".toList :=
  .number ⟨⟨by decide, by decide⟩, by decide⟩

theorem Writes.complement {e : Expression} {text : Text}
    (h : Writes functionPrefix (.operand e) text) :
    Writes functionPrefix (.operand (.difference (.number hundred) e))
      ("(100 - ".toList ++ text ++ [')']) := by
  have difference := Writes.sum writes_hundred.product_of_operand
    (.minus Text.blank_space Text.blank_space h.product_of_operand .noTerm)
  simpa using Writes.group Text.blank_nil Text.blank_nil difference

def ofWritten (w : WrittenComparison) : Expression :=
  .call .least
    [.quotient (.product (.variable w.reference) (.number hundred)) (.number w.number),
      .number hundred]

end Expression

/-! ### Comparisons -/

theorem unitsLimit_pos : 0 < unitsLimit := by
  have positive : ∀ k, 0 < Nat.pow 2 k := fun k => Nat.pow_pos (by decide)
  unfold unitsLimit
  exact positive 2098

theorem Binary64.nonpositive_ofRatio_iff {n d : Nat} :
    (ofRatio false n d).nonpositive = true ↔ roundUnits (n * unitsPerOne) d = 0 := by
  unfold ofRatio
  split
  · simp [nonpositive]
  · rename_i large
    refine iff_of_false Bool.false_ne_true fun zero => large ?_
    rw [zero]
    exact unitsLimit_pos

namespace Numeral

theorem value_le_iff {n : Numeral} {k m : Nat} (next : k + 1 = m) :
    2 * (n.numerator * Nat.pow 2 k) ≤ n.denominator ↔ n.value ≤ 1 / 2 ^ m := by
  have positive : (0 : Rat) < n.denominator := Nat.cast_pos.2 (Nat.pow_pos (by decide))
  rw [value, div_le_div_iff₀ positive (pow_pos zero_lt_two _), one_mul, Nat.pow_eq,
    Nat.mul_left_comm, ← Nat.pow_succ', Nat.succ_eq_add_one, next]
  exact_mod_cast Iff.rfl

theorem nearest_nonpositive_iff {n : Numeral} :
    n.nearest.nonpositive = true ↔ n.value ≤ 1 / 2 ^ 1075 := by
  have rounded : n.nearest.nonpositive = true ↔
      2 * (n.numerator * unitsPerOne) ≤ n.denominator :=
    Binary64.nonpositive_ofRatio_iff.trans (roundUnits_eq_zero_iff (Nat.pow_pos (by decide)))
  unfold unitsPerOne at rounded
  -- the power is not to be computed
  have next : 1074 + 1 = 1075 := rfl
  generalize 1074 = k at rounded next
  exact rounded.trans (value_le_iff next)

theorem value_pos {n : Numeral} (h : n.nearest.nonpositive = false) : 0 < n.value := by
  have above : ¬n.value ≤ 1 / 2 ^ 1075 := fun below => by
    rw [nearest_nonpositive_iff.2 below] at h
    cases h
  have least : (0 : Rat) ≤ 1 / 2 ^ 1075 := one_div_nonneg.2 (pow_nonneg zero_le_two _)
  exact least.trans_lt (not_le.1 above)

end Numeral

namespace Expression

variable {functionPrefix : Text}

theorem writes_ofWritten {w : WrittenComparison} (h : w.WellFormed) :
    Writes functionPrefix (.operand (ofWritten w))
      ((Formula.progress w.reference.text w.number.text).text functionPrefix) := by
  have blank := Text.blank_space
  have quotient : Writes functionPrefix
      (.factors (.product (.variable w.reference) (.number hundred))
        (.quotient (.product (.variable w.reference) (.number hundred)) (.number w.number)))
      ([' '] ++ ('/' :: ([' '] ++ (w.number.text ++ [])))) :=
    .factor .over blank blank (.number h.number) .noFactor
  have fraction := Writes.sum (.product (.variable h.reference)
    (.factor .times blank blank writes_hundred quotient)) .noTerm
  have arguments := Writes.more Text.blank_nil blank fraction (.one writes_hundred.sum_of_operand)
  have call := Writes.call .least Text.blank_nil Text.blank_nil arguments
  simpa [ofWritten, Formula.application, Text.joinWith, Sign.symbol] using call

theorem value_hundred : hundred.value = 100 := by
  have numerator : hundred.numerator = 100 := by decide
  have denominator : hundred.denominator = 1 := by decide
  simp [Numeral.value, numerator, denominator]

theorem value?_ofWritten {w : WrittenComparison} (h : w.WellFormed)
    (positive : w.number.nearest.nonpositive = false) (v : Text → Rat) :
    (ofWritten w).value? v = some (w.comparison.progress v) := by
  have nonzero : w.number.value ≠ 0 := ne_of_gt (Numeral.value_pos positive)
  have typed := Comparison.typedThreshold_comparison h
  simp only [ofWritten, value?, values?, value_hundred, if_neg nonzero, Option.bind_eq_bind,
    Option.bind_some, Option.pure_def]
  rw [Comparison.progress, typed, mul_comm]
  rfl

end Expression

/-! ### Formulas of conditions -/

namespace Formula

open Expression (Writes WritesAll)

/-- The text of the formula is written for an operand with the given values. -/
def Means (functionPrefix : Text) (f : Formula) (value : (Text → Rat) → Rat) : Prop :=
  ∃ e, Writes functionPrefix (.operand e) (f.text functionPrefix) ∧
    ∀ v, e.value? v = some (value v)

def AllMean (functionPrefix : Text) (fs : List Formula) (values : (Text → Rat) → List Rat) : Prop :=
  ∃ es, WritesAll functionPrefix es (texts functionPrefix fs) ∧
    ∀ v, Expression.values? v es = some (values v)

variable {functionPrefix : Text} {f : Formula} {fs : List Formula}
  {value : (Text → Rat) → Rat} {values : (Text → Rat) → List Rat}

theorem allMean_nil : AllMean functionPrefix [] fun _ => [] :=
  ⟨[], .nil, fun _ => rfl⟩

theorem AllMean.cons (h : Means functionPrefix f value)
    (others : AllMean functionPrefix fs values) :
    AllMean functionPrefix (f :: fs) fun v => value v :: values v := by
  obtain ⟨e, writes, means⟩ := h
  obtain ⟨es, all, mean⟩ := others
  refine ⟨e :: es, .cons writes all, fun v => ?_⟩
  rw [Expression.values?, means, mean]
  rfl

theorem AllMean.uncons (h : AllMean functionPrefix (f :: fs) values) :
    ∃ value values', Means functionPrefix f value ∧ AllMean functionPrefix fs values' ∧
      ∀ v, values v = value v :: values' v := by
  obtain ⟨es, all, mean⟩ := h
  cases all with
  | @cons e es _ _ writes all =>
    have parts : ∀ v, ∃ x xs, e.value? v = some x ∧ Expression.values? v es = some xs ∧
        values v = x :: xs := by
      intro v
      have both := mean v
      simp only [Expression.values?, Option.bind_eq_bind, Option.bind_eq_some_iff,
        Option.pure_def, Option.some.injEq] at both
      obtain ⟨x, hx, xs, hxs, same⟩ := both
      exact ⟨x, xs, hx, hxs, same.symm⟩
    -- the parts depend on the assignment, but the expressions do not
    choose value values' hvalue hvalues same using parts
    exact ⟨value, values', ⟨e, writes, hvalue⟩, ⟨es, all, hvalues⟩, same⟩

theorem Means.complement (h : Means functionPrefix f value) :
    Means functionPrefix (.complement f) fun v => 100 - value v := by
  obtain ⟨e, writes, means⟩ := h
  refine ⟨_, writes.complement, fun v => ?_⟩
  rw [Expression.value?, Expression.value?, means, Expression.value_hundred]
  rfl

theorem AllMean.call (h : AllMean functionPrefix (f :: fs) values) (function : Extremum) :
    Means functionPrefix (.call function (f :: fs)) fun v => function.among (values v) := by
  obtain ⟨value, values', -, -, same⟩ := h.uncons
  obtain ⟨es, all, mean⟩ := h
  have nonempty : es ≠ [] := by
    rintro rfl
    cases all
  refine ⟨.call function es, all.call nonempty function, fun v => ?_⟩
  rw [Expression.value?, mean]
  simp [same]

/-- Calls of two arguments, nested to the left. -/
theorem Means.foldl (function : Extremum) (h : Means functionPrefix f value)
    (others : AllMean functionPrefix fs values) :
    Means functionPrefix (fs.foldl (fun nested argument => .call function [nested, argument]) f)
      fun v => (values v).foldl function.apply (value v) := by
  induction fs generalizing f value values with
  | nil =>
    obtain ⟨es, all, mean⟩ := others
    cases all
    have none : ∀ v, values v = [] := fun v => (Option.some.inj (mean v)).symm
    simpa [none] using h
  | cons g fs ih =>
    obtain ⟨next, values', hnext, more, same⟩ := others.uncons
    -- the first two arguments make the call with which the fold goes on
    have pair := ((allMean_nil.cons hnext).cons h).call function
    have nested := ih pair more
    simpa [same, Extremum.among] using nested

theorem combine_means (binaryCalls : Bool) (function : Extremum)
    (h : AllMean functionPrefix (f :: fs) values) :
    ∃ g, combine binaryCalls (.call function) (f :: fs) = .ok g ∧
      Means functionPrefix g fun v => function.among (values v) := by
  obtain ⟨value, values', hf, more, same⟩ := h.uncons
  cases fs with
  | nil =>
    have nested := Means.foldl function hf more
    refine ⟨f, rfl, ?_⟩
    simpa [same, Extremum.foldl_apply] using nested
  | cons g fs =>
    cases binaryCalls with
    | false => exact ⟨_, rfl, h.call function⟩
    | true =>
      refine ⟨_, rfl, ?_⟩
      simpa [same, Extremum.foldl_apply] using Means.foldl function hf more

theorem exists_joinOperands {binaryCalls : Bool} {function : Extremum} {fs : Option (List Formula)}
    {p : Formula → Prop}
    (joined : ∀ gs, fs = some gs → ∃ g, combine binaryCalls (.call function) gs = .ok g ∧ p g) :
    ∃ f, joinOperands binaryCalls function fs = .ok f ∧ ∀ g, f = some g → p g := by
  cases fs with
  | none => exact ⟨none, rfl, nofun⟩
  | some fs =>
    obtain ⟨g, combined, holds⟩ := joined fs rfl
    refine ⟨some g, by rw [joinOperands, combined]; rfl, fun g' found => ?_⟩
    cases found
    exact holds

theorem joinOperands_means (binaryCalls : Bool) (function : Extremum) {fs : Option (List Formula)}
    {ts : List Condition} (several : 2 ≤ ts.length)
    (mean : ∀ gs, fs = some gs → gs.length = ts.length ∧ AllMean functionPrefix gs values) :
    ∃ f, joinOperands binaryCalls function fs = .ok f ∧
      ∀ g, f = some g → Means functionPrefix g fun v => function.among (values v) := by
  refine exists_joinOperands fun gs found => ?_
  obtain ⟨size, mean⟩ := mean gs found
  obtain ⟨f, rest, rfl⟩ := List.exists_cons_of_length_pos (l := gs) (by omega)
  exact combine_means binaryCalls function mean

theorem ofComparison?_eq_some {w : WrittenComparison} (h : w.WellFormed) :
    ofComparison? w.comparison = some f ↔
      w.number.nearest.nonpositive = false ∧ f = .progress w.reference.text w.number.text := by
  have divisor : divisorOf w.comparison = w.number.text := by
    simp [divisorOf, WrittenComparison.comparison, Numeral.text_ne_nil h.number]
  cases positive : w.number.nearest.nonpositive with
  | true => simp [ofComparison?, WrittenComparison.comparison, positive]
  | false =>
    rw [ofComparison?, divisor]
    simp [WrittenComparison.comparison, positive, eq_comm]

mutual

/-- A condition has a formula that means its progress, unless some threshold gives no scale. -/
theorem ofCondition_means (functionPrefix : Text) (binaryCalls : Bool) :
    ∀ {t : Condition}, t.IsRegular Comparison.IsWritten →
      ∃ f, ofCondition binaryCalls t = .ok f ∧
        ∀ g, f = some g → Means functionPrefix g fun v => t.progress v
  | .comparison c, ⟨w, wellFormed, same⟩ => by
    subst same
    refine ⟨_, by rw [ofCondition], fun g found => ?_⟩
    obtain ⟨positive, rfl⟩ := (ofComparison?_eq_some wellFormed).1 found
    exact ⟨_, Expression.writes_ofWritten wellFormed,
      Expression.value?_ofWritten wellFormed positive⟩
  | .not child, h => by
    obtain ⟨f, formula, means⟩ := ofCondition_means functionPrefix binaryCalls (t := child) h
    refine ⟨f.map .complement, by rw [ofCondition, formula]; rfl, fun g found => ?_⟩
    obtain ⟨inner, some, rfl⟩ := Option.map_eq_some_iff.1 found
    exact (means inner some).complement
  | .and children, ⟨several, h⟩ => by
    obtain ⟨fs, formulas, mean⟩ := ofConditions_mean functionPrefix binaryCalls h
    rw [ofCondition_and formulas]
    exact joinOperands_means binaryCalls .least several mean
  | .or children, ⟨several, h⟩ => by
    obtain ⟨fs, formulas, mean⟩ := ofConditions_mean functionPrefix binaryCalls h
    rw [ofCondition_or formulas]
    exact joinOperands_means binaryCalls .greatest several mean

theorem ofConditions_mean (functionPrefix : Text) (binaryCalls : Bool) :
    ∀ {ts : List Condition}, Condition.AllRegular Comparison.IsWritten ts →
      ∃ fs, ofConditions binaryCalls ts = .ok fs ∧ ∀ gs, fs = some gs →
        gs.length = ts.length ∧ AllMean functionPrefix gs fun v => Condition.progressOfAll v ts
  | [], _ => by
    refine ⟨some [], rfl, fun gs found => ?_⟩
    cases found
    exact ⟨rfl, allMean_nil⟩
  | t :: ts, ⟨h, hs⟩ => by
    obtain ⟨f, formula, means⟩ := ofCondition_means functionPrefix binaryCalls h
    obtain ⟨fs, formulas, mean⟩ := ofConditions_mean functionPrefix binaryCalls hs
    refine ⟨_, ofConditions_cons formula formulas, fun gs found => ?_⟩
    cases f with
    | none => cases found
    | some f =>
      cases fs with
      | none => cases found
      | some fs =>
        cases found
        obtain ⟨size, all⟩ := mean fs rfl
        exact ⟨by simp [size], all.cons (means f rfl)⟩

end

/-! ### Readings -/

open Expression (IsReading IsPrefix)

/-- The text has exactly one reading, and it has the given values. -/
def HasOneReading (functionPrefix text : Text) (value : (Text → Rat) → Rat) : Prop :=
  ∃ e, IsReading functionPrefix e text ∧ (∀ e', IsReading functionPrefix e' text → e' = e) ∧
    ∀ v, e.value? v = some (value v)

theorem Means.hasOneReading (hp : IsPrefix functionPrefix) (h : Means functionPrefix f value) :
    HasOneReading functionPrefix (f.text functionPrefix) value := by
  obtain ⟨e, writes, means⟩ := h
  have reading := writes.isReading
  exact ⟨e, reading, fun e' reading' => reading'.unique hp reading, means⟩

theorem isPrefix_of_mem (h : functionPrefix ∈ [[], "T(Math).".toList]) :
    IsPrefix functionPrefix := by
  simp only [List.mem_cons, List.not_mem_nil, or_false] at h
  rcases h with rfl | rfl
  · exact Text.stops_nil _
  · exact Text.stops_cons.2 (by decide)

/-- The text of a formula means what the rule says: in both modes and with both kinds of calls it
has one reading, and that evaluates to the progress of what was recognised. -/
theorem hasOneReading_of_rule (known : functionPrefix ∈ [[], "T(Math).".toList])
    (binaryCalls : Bool) (rule : Text) :
    (∀ t, Condition.ofRule? rule = some t →
      ∃ f, ofCondition binaryCalls t = .ok f ∧
        (textOf functionPrefix f ≠ [] →
          HasOneReading functionPrefix (textOf functionPrefix f) fun v => t.progress v)) ∧
    ((decompose rule).failed = false →
      ∃ f, ofDecomposition binaryCalls (decompose rule) = .ok f ∧
        (textOf functionPrefix f ≠ [] →
          HasOneReading functionPrefix (textOf functionPrefix f) fun v =>
            (decompose rule).progress v)) := by
  have nested : ∀ t, Condition.ofRule? rule = some t →
      ∃ f, ofCondition binaryCalls t = .ok f ∧
        (textOf functionPrefix f ≠ [] →
          HasOneReading functionPrefix (textOf functionPrefix f) fun v => t.progress v) := by
    intro t read
    obtain ⟨f, formula, means⟩ :=
      ofCondition_means functionPrefix binaryCalls (Condition.isRegular_of_ofRule? read)
    refine ⟨f, formula, fun nonempty => ?_⟩
    cases f with
    | none => exact absurd rfl nonempty
    | some f => exact (means f rfl).hasOneReading (isPrefix_of_mem known)
  refine ⟨nested, fun recognised => ?_⟩
  obtain ⟨t, standsFor, read⟩ := Decomposition.exists_standsFor recognised
  simp only [ofDecomposition_eq_ofCondition standsFor, standsFor.progress_eq]
  exact nested t read

theorem hasOneReading_of_conjunction :
    HasOneReading "T(Math).".toList
      ("T(Math).min(T(Math).min(#level * 100 / 5, 100), " ++
        "T(Math).min(#coins * 100 / 0.25, 100))").toList
      fun v => (decompose "#level >= 5 && #coins > 0.25".toList).progress v := by
  have known : "T(Math).".toList ∈ [[], "T(Math).".toList] := by decide
  have recognised : (decompose "#level >= 5 && #coins > 0.25".toList).failed = false := by
    decide +kernel
  have text : (ofDecomposition true (decompose "#level >= 5 && #coins > 0.25".toList)).map
      (textOf "T(Math).".toList) = .ok ("T(Math).min(T(Math).min(#level * 100 / 5, 100), " ++
        "T(Math).min(#coins * 100 / 0.25, 100))").toList := by
    decide +kernel
  obtain ⟨f, formula, reading⟩ := (hasOneReading_of_rule known true _).2 recognised
  rw [formula] at text
  have same := Except.ok.inj text
  rw [← same]
  exact reading (by rw [same]; decide)

end Formula

end ProgressRules

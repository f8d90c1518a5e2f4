import ProgressRules.Proofs.Formula.Fulfilment

/-! The divisors of formulas. A formula divides once for each comparison of its rule, by the number
that was typed there. There is no formula if one of the numbers is rounded to zero, wherever it
stands, and otherwise all of them are positive. -/

namespace ProgressRules

open Text (Blank)

/-! ### Divisions -/

namespace Expression

mutual

/-- What is divided and by what, in the order of the signs. -/
def divisions : Expression → List (Expression × Expression)
  | .number _ => []
  | .variable _ => []
  | .product a b => divisions a ++ divisions b
  | .quotient a b => divisions a ++ (a, b) :: divisions b
  | .difference a b => divisions a ++ divisions b
  | .call _ arguments => divisionsOfAll arguments

def divisionsOfAll : List Expression → List (Expression × Expression)
  | [] => []
  | e :: es => divisions e ++ divisionsOfAll es

end

end Expression

namespace WrittenComparison

def division (w : WrittenComparison) : Expression × Expression :=
  (.product (.variable w.reference) (.number Expression.hundred), .number w.number)

def SignsOnly (gap : Text) : Prop := ∀ c ∈ gap, Text.isWord c = false ∧ c ≠ '#'

/-- The comparisons stand in the text one after the other, with nothing but signs between them. -/
inductive AreTyped : List WrittenComparison → Text → Prop where
  | nil {gap : Text} : SignsOnly gap → AreTyped [] gap
  | cons {gap rest : Text} {w : WrittenComparison} {ws : List WrittenComparison} :
      SignsOnly gap → w.WellFormed → AreTyped ws rest →
        AreTyped (w :: ws) (gap ++ (w.markedText ++ rest))

theorem AreTyped.wellFormed {ws : List WrittenComparison} {text : Text} (h : AreTyped ws text) :
    ∀ w ∈ ws, w.WellFormed := by
  induction h with
  | nil => exact fun _ => nofun
  | cons _ wellFormed _ ih => exact List.forall_mem_cons.2 ⟨wellFormed, ih⟩

theorem AreTyped.behind {ws : List WrittenComparison} {front text : Text} (h : AreTyped ws text)
    (signs : SignsOnly front) : AreTyped ws (front ++ text) := by
  cases h with
  | nil others => exact .nil (List.forall_mem_append.2 ⟨signs, others⟩)
  | cons others wellFormed more =>
    rw [← List.append_assoc]
    exact .cons (List.forall_mem_append.2 ⟨signs, others⟩) wellFormed more

theorem signsOnly_of_blank {gap : Text} (blank : Blank gap) : SignsOnly gap := by
  refine fun c inside => ⟨Text.not_isWord_of_isBlank (blank c inside), ?_⟩
  rintro rfl
  exact absurd (blank '#' inside) (by decide)

end WrittenComparison

open WrittenComparison (SignsOnly AreTyped signsOnly_of_blank)

theorem Layout.exists_areTyped {layout : Layout} (wellFormed : layout.WellFormed) :
    ∃ ws, AreTyped ws layout.ruleText ∧
      ws.map WrittenComparison.comparison = layout.tokens.filterMap Token.comparison? := by
  induction layout with
  | nil => exact ⟨[], .nil fun _ => nofun, rfl⟩
  | cons item layout ih =>
    obtain ⟨x, gap⟩ := item
    obtain ⟨wf_x, blank, wf_layout⟩ := Layout.wellFormed_cons.1 wellFormed
    obtain ⟨ws, typed, same⟩ := ih wf_layout
    have behind := typed.behind (signsOnly_of_blank blank)
    rw [Layout.ruleText_cons]
    cases x with
    | comparison w =>
      have typed : AreTyped (w :: ws) ([] ++ (w.markedText ++ (gap ++ Layout.ruleText layout))) :=
        .cons (fun _ => nofun) wf_x behind
      exact ⟨w :: ws, typed, congrArg (w.comparison :: ·) same⟩
    | and | or | not | leftParen | rightParen =>
      exact ⟨ws, behind.behind (by unfold SignsOnly; decide), same⟩

/-- The comparisons of an accepted rule are typed in it in their order. -/
theorem Condition.exists_areTyped {rule : Text} {t : Condition}
    (accepted : Condition.ofRule? rule = some t) :
    ∃ ws, AreTyped ws rule ∧ ws.map WrittenComparison.comparison = t.comparisons := by
  obtain ⟨lead, layout, blank, wellFormed, rfl, sentence⟩ :=
    Condition.ofRule?_iff_layout.1 accepted
  obtain ⟨ws, typed, same⟩ := Layout.exists_areTyped wellFormed
  exact ⟨ws, typed.behind (signsOnly_of_blank blank), same.trans sentence.comparisons_eq.symm⟩

/-! ### Formulas of conditions -/

namespace Formula

open Expression (Writes WritesAll IsReading IsPrefix)

theorem textOf_eq_nil_iff {functionPrefix : Text} {f : Option Formula} :
    textOf functionPrefix f = [] ↔ f = none := by
  cases f with
  | none => exact iff_of_true rfl rfl
  | some f => cases f <;> simp [textOf, application]

/-- The text of the formula is written for an operand that divides as the comparisons say, in
their order and not otherwise. -/
def Divides (functionPrefix : Text) (f : Formula) (ws : List WrittenComparison) : Prop :=
  ∃ e, Writes functionPrefix (.operand e) (f.text functionPrefix) ∧
    e.divisions = ws.map WrittenComparison.division

inductive AllDivide (functionPrefix : Text) : List Formula → List WrittenComparison → Prop where
  | nil : AllDivide functionPrefix [] []
  | cons {f : Formula} {fs : List Formula} {ws others : List WrittenComparison} :
      Divides functionPrefix f ws → AllDivide functionPrefix fs others →
        AllDivide functionPrefix (f :: fs) (ws ++ others)

variable {functionPrefix : Text} {f : Formula} {fs : List Formula}
  {ws others : List WrittenComparison}

theorem divides_progress {w : WrittenComparison} (h : w.WellFormed) :
    Divides functionPrefix (.progress w.reference.text w.number.text) [w] :=
  ⟨_, Expression.writes_ofWritten h, rfl⟩

theorem Divides.complement (h : Divides functionPrefix f ws) :
    Divides functionPrefix (.complement f) ws := by
  obtain ⟨e, writes, same⟩ := h
  exact ⟨_, writes.complement, same⟩

theorem AllDivide.exists_writesAll (h : AllDivide functionPrefix fs ws) :
    ∃ es, WritesAll functionPrefix es (texts functionPrefix fs) ∧
      Expression.divisionsOfAll es = ws.map WrittenComparison.division := by
  induction h with
  | nil => exact ⟨[], .nil, rfl⟩
  | cons first _ ih =>
    obtain ⟨e, writes, same⟩ := first
    obtain ⟨es, all, same'⟩ := ih
    refine ⟨e :: es, .cons writes all, ?_⟩
    rw [Expression.divisionsOfAll, same, same', List.map_append]

theorem AllDivide.call (h : AllDivide functionPrefix (f :: fs) ws) (function : Extremum) :
    Divides functionPrefix (.call function (f :: fs)) ws := by
  obtain ⟨es, all, same⟩ := h.exists_writesAll
  have nonempty : es ≠ [] := by
    rintro rfl
    cases all
  exact ⟨.call function es, all.call nonempty function, same⟩

theorem Divides.foldl (function : Extremum) (h : Divides functionPrefix f ws)
    (more : AllDivide functionPrefix fs others) :
    Divides functionPrefix (fs.foldl (fun nested argument => .call function [nested, argument]) f)
      (ws ++ others) := by
  induction more generalizing f ws with
  | nil => simpa using h
  | @cons g fs ws' others next _ ih =>
    have pair : Divides functionPrefix (.call function [f, g]) (ws ++ ws') := by
      simpa using (AllDivide.cons h (.cons next .nil)).call function
    simpa using ih pair

theorem combine_divides (binaryCalls : Bool) (function : Extremum)
    (h : AllDivide functionPrefix (f :: fs) ws) :
    ∃ g, combine binaryCalls (.call function) (f :: fs) = .ok g ∧ Divides functionPrefix g ws := by
  cases h with
  | cons first more =>
    cases more with
    | nil => exact ⟨f, rfl, by simpa using first⟩
    | cons second more =>
      have all := AllDivide.cons first (.cons second more)
      cases binaryCalls with
      | false => exact ⟨_, rfl, all.call function⟩
      | true => exact ⟨_, rfl, first.foldl function (.cons second more)⟩

theorem joinOperands_divides (binaryCalls : Bool) (function : Extremum) {fs : Option (List Formula)}
    {ts : List Condition} {p : Prop} (several : 2 ≤ ts.length)
    (divide : ∀ gs, fs = some gs → gs.length = ts.length ∧ p ∧ AllDivide functionPrefix gs ws) :
    ∃ f, joinOperands binaryCalls function fs = .ok f ∧
      ∀ g, f = some g → p ∧ Divides functionPrefix g ws := by
  refine exists_joinOperands fun gs found => ?_
  obtain ⟨size, kept, divide⟩ := divide gs found
  obtain ⟨f, rest, rfl⟩ := List.exists_cons_of_length_pos (l := gs) (by omega)
  obtain ⟨g, combined, divides⟩ := combine_divides binaryCalls function divide
  exact ⟨g, combined, kept, divides⟩

def AllScaled (ws : List WrittenComparison) : Prop :=
  ∀ w ∈ ws, w.number.nearest.nonpositive = false

mutual

/-- The formula of a condition divides as its comparisons say, and there is none if a number is
rounded to zero. -/
theorem ofCondition_divides (functionPrefix : Text) (binaryCalls : Bool) {p : Comparison → Prop} :
    ∀ {t : Condition} {ws : List WrittenComparison}, t.IsRegular p → (∀ w ∈ ws, w.WellFormed) →
      ws.map WrittenComparison.comparison = t.comparisons →
        ∃ f, ofCondition binaryCalls t = .ok f ∧
          ∀ g, f = some g → AllScaled ws ∧ Divides functionPrefix g ws
  | .comparison c, ws, _, wellFormed, same => by
    obtain ⟨w, rfl, rfl⟩ := List.map_eq_singleton_iff.1 same
    have here : w.WellFormed := wellFormed w List.mem_cons_self
    refine ⟨_, by rw [ofCondition], fun g found => ?_⟩
    obtain ⟨scaled, rfl⟩ := (ofComparison?_eq_some here).1 found
    exact ⟨List.forall_mem_singleton.2 scaled, divides_progress here⟩
  | .not child, ws, h, wellFormed, same => by
    obtain ⟨f, formula, divides⟩ :=
      ofCondition_divides functionPrefix binaryCalls (t := child) h wellFormed same
    refine ⟨f.map .complement, by rw [ofCondition, formula]; rfl, fun g found => ?_⟩
    obtain ⟨inner, some, rfl⟩ := Option.map_eq_some_iff.1 found
    obtain ⟨scaled, inside⟩ := divides inner some
    exact ⟨scaled, inside.complement⟩
  | .and children, ws, ⟨several, h⟩, wellFormed, same => by
    obtain ⟨fs, formulas, divide⟩ :=
      ofConditions_divide functionPrefix binaryCalls h wellFormed same
    rw [ofCondition_and formulas]
    exact joinOperands_divides binaryCalls .least several divide
  | .or children, ws, ⟨several, h⟩, wellFormed, same => by
    obtain ⟨fs, formulas, divide⟩ :=
      ofConditions_divide functionPrefix binaryCalls h wellFormed same
    rw [ofCondition_or formulas]
    exact joinOperands_divides binaryCalls .greatest several divide

theorem ofConditions_divide (functionPrefix : Text) (binaryCalls : Bool) {p : Comparison → Prop} :
    ∀ {ts : List Condition} {ws : List WrittenComparison}, Condition.AllRegular p ts →
      (∀ w ∈ ws, w.WellFormed) →
        ws.map WrittenComparison.comparison = Condition.comparisonsOfAll ts →
          ∃ fs, ofConditions binaryCalls ts = .ok fs ∧ ∀ gs, fs = some gs →
            gs.length = ts.length ∧ AllScaled ws ∧ AllDivide functionPrefix gs ws
  | [], ws, _, _, same => by
    obtain rfl := List.map_eq_nil_iff.1 same
    refine ⟨some [], rfl, fun gs found => ?_⟩
    cases found
    exact ⟨rfl, fun _ => nofun, .nil⟩
  | t :: ts, ws, ⟨h, hs⟩, wellFormed, same => by
    -- the comparisons of the first operand stand before those of the others
    obtain ⟨front, rest, rfl, first, others⟩ := List.map_eq_append_iff.1 same
    obtain ⟨wf_front, wf_rest⟩ := List.forall_mem_append.1 wellFormed
    obtain ⟨f, formula, divides⟩ :=
      ofCondition_divides functionPrefix binaryCalls h wf_front first
    obtain ⟨fs, formulas, divide⟩ :=
      ofConditions_divide functionPrefix binaryCalls hs wf_rest others
    refine ⟨_, ofConditions_cons formula formulas, fun gs found => ?_⟩
    cases f with
    | none => cases found
    | some f =>
      cases fs with
      | none => cases found
      | some fs =>
        cases found
        obtain ⟨scaled, here⟩ := divides f rfl
        obtain ⟨size, all_scaled, there⟩ := divide fs rfl
        exact ⟨by simp [size], List.forall_mem_append.2 ⟨scaled, all_scaled⟩, .cons here there⟩

end

/-! ### Texts of formulas -/

/-- The text of a formula divides by the numbers of the comparisons, as they are typed and in their
order, and by nothing else. It is empty if one of them is rounded to zero. -/
structure IsScaledBy (functionPrefix text : Text) (ws : List WrittenComparison) : Prop where
  refused : text = [] ↔ ∃ w ∈ ws, w.number.value ≤ 1 / 2 ^ 1075
  rounded : text = [] ↔ ∃ w ∈ ws, w.number.nearest.nonpositive = true
  positive : text ≠ [] → ∀ w ∈ ws, 0 < w.number.value
  divides : text ≠ [] →
    ∃ e, IsReading functionPrefix e text ∧ e.divisions = ws.map WrittenComparison.division
  /-- Where calls are told from the other operands there is no other reading, and a value. -/
  only : IsPrefix functionPrefix → ∀ e, IsReading functionPrefix e text →
    e.divisions = ws.map WrittenComparison.division ∧ ∀ v, (e.value? v).isSome = true

theorem eq_none_iff_refused {binaryCalls : Bool} {t : Condition} {f : Option Formula}
    (formula : ofCondition binaryCalls t = .ok f)
    (same : ws.map WrittenComparison.comparison = t.comparisons)
    (scaled : ∀ g, f = some g → AllScaled ws) :
    f = none ↔ ∃ w ∈ ws, w.number.nearest.nonpositive = true := by
  constructor
  · rintro rfl
    by_contra kept
    refine ofCondition_ne_none binaryCalls (t := t) (fun c inside => ?_) formula
    rw [← same] at inside
    obtain ⟨w, member, rfl⟩ := List.mem_map.1 inside
    rw [w.threshold_comparison]
    exact Bool.eq_false_iff.2 fun zero => kept ⟨w, member, zero⟩
  · rintro ⟨w, member, zero⟩
    refine Option.eq_none_iff_forall_ne_some.2 fun g found => ?_
    rw [scaled g found w member] at zero
    cases zero

theorem isScaledBy_of_condition (functionPrefix : Text) (binaryCalls : Bool) {t : Condition}
    (regular : t.IsRegular Comparison.IsWritten) (wellFormed : ∀ w ∈ ws, w.WellFormed)
    (same : ws.map WrittenComparison.comparison = t.comparisons) :
    ∃ f, ofCondition binaryCalls t = .ok f ∧
      IsScaledBy functionPrefix (textOf functionPrefix f) ws := by
  obtain ⟨f, formula, divides⟩ :=
    ofCondition_divides functionPrefix binaryCalls regular wellFormed same
  have rounded : textOf functionPrefix f = [] ↔ ∃ w ∈ ws, w.number.nearest.nonpositive = true :=
    textOf_eq_nil_iff.trans (eq_none_iff_refused formula same fun g found => (divides g found).1)
  have refused : textOf functionPrefix f = [] ↔ ∃ w ∈ ws, w.number.value ≤ 1 / 2 ^ 1075 := by
    simpa only [Numeral.nearest_nonpositive_iff] using rounded
  refine ⟨f, formula, ?_⟩
  cases f with
  | none =>
    exact ⟨refused, rounded, absurd rfl, absurd rfl, fun told e reading =>
      absurd reading (Expression.not_isReading_nil told e)⟩
  | some g =>
    obtain ⟨scaled, e, writes, divisions⟩ := divides g rfl
    have reading := writes.isReading
    refine ⟨refused, rounded, fun _ w member => Numeral.value_pos (scaled w member),
      fun _ => ⟨e, reading, divisions⟩, fun told e' reading' => ?_⟩
    obtain ⟨f, formula', means⟩ := ofCondition_means functionPrefix binaryCalls regular
    rw [formula] at formula'
    obtain ⟨valued, read, -, value⟩ :=
      (means g (Except.ok.inj formula').symm).hasOneReading told
    have same_reading : e' = e := reading'.unique told reading
    have same_value : e' = valued := reading'.unique told read
    exact ⟨by rw [same_reading, divisions], fun v => by rw [same_value, value]; rfl⟩

/-- The formula of an accepted rule, flat or nested, divides by the numbers that are typed in the
rule. It is refused if one of them is rounded to zero, and there is no other reason. -/
theorem divides_by_typed (functionPrefix : Text) (binaryCalls : Bool) (rule : Text) :
    (∀ t, Condition.ofRule? rule = some t → ∃ f ws, ofCondition binaryCalls t = .ok f ∧
      AreTyped ws rule ∧ ws.map WrittenComparison.comparison = t.comparisons ∧
      IsScaledBy functionPrefix (textOf functionPrefix f) ws) ∧
    ((decompose rule).failed = false → ∃ f ws,
      ofDecomposition binaryCalls (decompose rule) = .ok f ∧
      AreTyped ws rule ∧ ws.map WrittenComparison.comparison = (decompose rule).comparisons ∧
      IsScaledBy functionPrefix (textOf functionPrefix f) ws) := by
  have nested : ∀ t, Condition.ofRule? rule = some t → ∃ f ws, ofCondition binaryCalls t = .ok f ∧
      AreTyped ws rule ∧ ws.map WrittenComparison.comparison = t.comparisons ∧
      IsScaledBy functionPrefix (textOf functionPrefix f) ws := by
    intro t accepted
    obtain ⟨ws, typed, same⟩ := Condition.exists_areTyped accepted
    obtain ⟨f, formula, scaled⟩ := isScaledBy_of_condition functionPrefix binaryCalls
      (Condition.isRegular_of_ofRule? accepted) typed.wellFormed same
    exact ⟨f, ws, formula, typed, same, scaled⟩
  refine ⟨nested, fun recognised => ?_⟩
  obtain ⟨t, standsFor, accepted⟩ := Decomposition.exists_standsFor recognised
  rw [ofDecomposition_eq_ofCondition standsFor, ← standsFor.comparisons_eq]
  exact nested t accepted

/-- The numbers are divided by as they are typed, with their zeros; a zero is refused. -/
theorem divides_by_padded_numbers :
    (∃ f ws, (Condition.ofRule? "!(#level > 05) || #coins >= 0.250".toList).map
        (ofCondition true) = some (.ok f) ∧
      ws.map (fun w => (w.reference.text, w.number.text)) =
        [("level".toList, "05".toList), ("coins".toList, "0.250".toList)] ∧
      textOf "T(Math).".toList f ≠ [] ∧
      IsScaledBy "T(Math).".toList (textOf "T(Math).".toList f) ws) ∧
    ∃ f ws, ofDecomposition false (decompose "#level > 05 && #coins >= 0.0".toList) = .ok f ∧
      textOf [] f = [] ∧ IsScaledBy [] (textOf [] f) ws := by
  constructor
  · have read : ((Condition.ofRule? "!(#level > 05) || #coins >= 0.250".toList).map fun t =>
        t.comparisons.map fun c => (c.reference, c.thresholdText)) =
          some [("level".toList, "05".toList), ("coins".toList, "0.250".toList)] := by
      decide +kernel
    have scaled : (ofCondition? true (Condition.ofRule?
        "!(#level > 05) || #coins >= 0.250".toList)).map (textOf []) ≠ .ok [] := by
      decide +kernel
    obtain ⟨t, accepted, typed⟩ := Option.map_eq_some_iff.1 read
    obtain ⟨f, ws, formula, -, same, divides⟩ :=
      (divides_by_typed "T(Math).".toList true _).1 t accepted
    refine ⟨f, ws, by rw [accepted, Option.map_some, formula], ?_, fun empty => ?_, divides⟩
    · rw [← typed, ← same, List.map_map]
      rfl
    · rw [textOf_eq_nil_iff] at empty
      rw [accepted, ofCondition?, formula, empty] at scaled
      exact scaled rfl
  · have refused : (ofDecomposition false (decompose "#level > 05 && #coins >= 0.0".toList)).map
        (textOf []) = .ok [] := by
      decide +kernel
    obtain ⟨f, ws, formula, -, -, divides⟩ := (divides_by_typed [] false
      "#level > 05 && #coins >= 0.0".toList).2 (by decide +kernel)
    rw [formula] at refused
    exact ⟨f, ws, formula, Except.ok.inj refused, divides⟩

end Formula

end ProgressRules

import ProgressRules.Proofs.Condition.Phrase
import ProgressRules.Proofs.Diagnostics.Scanning
import ProgressRules.Proofs.Formula.Expression

/-! Which references are reported. The search for comparisons knows numbers only. A reference that
is compared with a truth value is passed over, and its root is reported only if it is compared with
a number as well. -/

namespace ProgressRules

open Text (IsRun Stops Blank)
open Expression (Follows follows_mark follows_gap)

/-! ### Tests -/

def Operand.ruleText : Operand → Text
  | .number n => n.text
  | .truth value => if value then "true".toList else "false".toList

/-- A reference, marked or not, that is compared with a number or a truth value. Blanks may stand
on both sides of the operator. -/
structure WrittenTest where
  marked : Bool
  reference : Reference
  left : Text
  operator : Operator
  right : Text
  operand : Operand

namespace WrittenTest

structure WellFormed (t : WrittenTest) : Prop where
  reference : t.reference.WellFormed
  left : Blank t.left
  operator : t.operator.Known
  right : Blank t.right
  operand : t.operand.WellFormed

def mark (t : WrittenTest) : Text := if t.marked then ['#'] else []

def text (t : WrittenTest) : Text :=
  t.mark ++ (t.reference.text ++
    (t.left ++ (t.operator.symbol ++ (t.right ++ t.operand.ruleText))))

def isNumeric (t : WrittenTest) : Bool :=
  match t.operand with
  | .number _ => true
  | .truth _ => false

/-- What is found of the test, which is nothing if it asks for a truth value. -/
def comparison? (t : WrittenTest) : Option Comparison :=
  match t.operand with
  | .number n => some ⟨t.reference.text, t.operator, n.nearest, n.text⟩
  | .truth _ => none

end WrittenTest

/-- The rule is built from the tests with conjunctions, disjunctions, negations and parentheses,
and blanks may stand between all of them. -/
inductive BuiltFrom : List WrittenTest → Text → Prop where
  | test {t : WrittenTest} : t.WellFormed → BuiltFrom [t] t.text
  | spaced {ts : List WrittenTest} {left text right : Text} :
      Blank left → Blank right → BuiltFrom ts text → BuiltFrom ts (left ++ (text ++ right))
  | group {ts : List WrittenTest} {text : Text} :
      BuiltFrom ts text → BuiltFrom ts ('(' :: (text ++ [')']))
  | not {ts : List WrittenTest} {text : Text} : BuiltFrom ts text → BuiltFrom ts ('!' :: text)
  | and {ts us : List WrittenTest} {text more : Text} :
      BuiltFrom ts text → BuiltFrom us more → BuiltFrom (ts ++ us) (text ++ ('&' :: '&' :: more))
  | or {ts us : List WrittenTest} {text more : Text} :
      BuiltFrom ts text → BuiltFrom us more → BuiltFrom (ts ++ us) (text ++ ('|' :: '|' :: more))

/-! ### Keys -/

/-- The first apostrophe in the segments of a reference stands behind a bracket. -/
theorem Segment.bracket_mem {segments : List Segment} (h : ∀ s ∈ segments, s.WellFormed)
    {front behind a b : Text} (plain : Text.apostrophe ∉ front) (plain' : Text.apostrophe ∉ behind)
    (outside : Text.apostrophe ∉ a)
    (same : front ++ (segments.flatMap Segment.text ++ behind) = a ++ Text.apostrophe :: b) :
    '[' ∈ a := by
  induction segments generalizing front with
  | nil =>
    have inside : Text.apostrophe ∈ front ++ behind := by
      rw [← List.nil_append behind, ← List.flatMap_nil (f := Segment.text), same]
      simp
    rcases List.mem_append.1 inside with early | late
    · exact absurd early plain
    · exact absurd late plain'
  | cons s segments ih =>
    obtain ⟨first, others⟩ := List.forall_mem_cons.1 h
    rw [List.flatMap_cons] at same
    cases s with
    | member name =>
      have plain_name : Text.apostrophe ∉ front ++ '.' :: name := by
        have word : Text.apostrophe ∉ name := fun inside => absurd (first.2 _ inside) (by decide)
        simp [plain, word]
        decide
      exact ih others plain_name (by simpa [Segment.text] using same)
    | key name =>
      have apart : ∀ text : Text, Text.apostrophe ∉ text →
          ∀ c ∈ text, (c != Text.apostrophe) = true := by
        intro text free c inside
        rw [bne_iff_ne]
        rintro rfl
        exact free inside
      have plain_bracket : Text.apostrophe ∉ front ++ ['['] := by
        simp [plain]
        decide
      have split : (front ++ ['[']) ++
          (Text.apostrophe :: (name ++ (Text.apostrophe :: ']' ::
            (segments.flatMap Segment.text ++ behind)))) = a ++ Text.apostrophe :: b := by
        simpa [Segment.text] using same
      have taken := congrArg (List.takeWhile (· != Text.apostrophe)) split
      rw [Text.takeWhile_append (apart _ plain_bracket) (Text.stops_cons.2 (by simp)),
        Text.takeWhile_append (apart _ outside) (Text.stops_cons.2 (by simp))] at taken
      rw [← taken]
      simp

def lively : List Char := ['[', '>', '<', '=', '!']

def Segment.IsCalm : Segment → Prop
  | .member _ => True
  | .key name => ∀ c ∈ name, c ∉ lively

theorem Comparison.read_quoted {inside rest : Text} (calm : ∀ c ∈ inside, c ∉ lively)
    (quoted : Text.apostrophe ∉ inside) :
    Comparison.read (inside ++ Text.apostrophe :: rest) = none := by
  cases found : Comparison.read (inside ++ Text.apostrophe :: rest) with
  | none => rfl
  | some result =>
    obtain ⟨c, rest'⟩ := result
    obtain ⟨w, wellFormed, -, split, -⟩ := Comparison.read_eq_some found
    obtain ⟨o, more, symbol, initial⟩ := Operator.symbol_eq_cons wellFormed.operator
    have operator_lively : o ∈ lively := List.mem_cons_of_mem '[' initial
    have operator_first : inside ++ Text.apostrophe :: rest =
        (w.reference.text ++ w.left) ++
          (o :: (more ++ (w.right ++ (w.number.text ++ rest')))) := by
      rw [split, WrittenComparison.text_append, symbol]
      simp
    -- the operator would stand in the key, or the reference would go on behind it
    rcases List.append_eq_append_iff.1 operator_first with ⟨between, front, behind⟩ |
      ⟨between, front, behind⟩
    · cases between with
      | nil =>
        have same : Text.apostrophe = o := (List.cons.inj behind).1
        exact absurd operator_lively (by rw [← same]; decide)
      | cons d between =>
        obtain rfl : Text.apostrophe = d := (List.cons.inj behind).1
        have root : Text.apostrophe ∉ w.reference.root := fun member =>
          absurd (wellFormed.reference.root.2 _ member) (by decide)
        have bracket : '[' ∈ inside := Segment.bracket_mem wellFormed.reference.segments root
          (wellFormed.left.not_mem (by decide)) quoted
          (by rw [← front, Reference.text, List.append_assoc])
        exact absurd (by decide) (calm _ bracket)
    · cases between with
      | nil =>
        have same : o = Text.apostrophe := (List.cons.inj behind).1
        exact absurd operator_lively (by rw [same]; decide)
      | cons d between =>
        obtain rfl : o = d := (List.cons.inj behind).1
        exact absurd operator_lively (calm _ (by rw [front]; simp))

theorem collect_key {name rest : Text} (calm : ∀ c ∈ name, c ∉ lively)
    (quoted : Text.apostrophe ∉ name) :
    Text.collect Comparison.read (name ++ Text.apostrophe :: rest) =
      Text.collect Comparison.read (Text.apostrophe :: rest) := by
  induction name with
  | nil => rfl
  | cons c name ih =>
    have unread : Comparison.read (c :: (name ++ Text.apostrophe :: rest)) = none :=
      Comparison.read_quoted calm quoted
    rw [List.cons_append, Text.collect_cons unread,
      ih (List.forall_mem_cons.1 calm).2 (fun inside => quoted (List.mem_cons_of_mem c inside))]

/-! ### Tests in the search -/

/-- No comparison is found where a reference goes on with the text. -/
def Barren (tail : Text) : Prop :=
  ∀ r : Reference, r.WellFormed → Comparison.read (r.text ++ tail) = none

theorem collect_word {w tail : Text} {segments : List Segment} (barren : Barren tail)
    (word : ∀ c ∈ w, Text.isWord c = true) (wellFormed : ∀ s ∈ segments, s.WellFormed) :
    Text.collect Comparison.read (w ++ (segments.flatMap Segment.text ++ tail)) =
      Text.collect Comparison.read (segments.flatMap Segment.text ++ tail) := by
  induction w with
  | nil => rfl
  | cons c w ih =>
    -- what is left of the word is the root of another reference
    have unread : Comparison.read (c :: (w ++ (segments.flatMap Segment.text ++ tail))) = none := by
      have remaining := barren ⟨c :: w, segments⟩ ⟨⟨List.cons_ne_nil c w, word⟩, wellFormed⟩
      rw [Reference.text, List.append_assoc] at remaining
      exact remaining
    rw [List.cons_append, Text.collect_cons unread, ih (List.forall_mem_cons.1 word).2]

theorem collect_segments {tail : Text} {segments : List Segment} (barren : Barren tail)
    (wellFormed : ∀ s ∈ segments, s.WellFormed) (calm : ∀ s ∈ segments, s.IsCalm) :
    Text.collect Comparison.read (segments.flatMap Segment.text ++ tail) =
      Text.collect Comparison.read tail := by
  induction segments with
  | nil => rfl
  | cons s segments ih =>
    obtain ⟨wf_first, wf_others⟩ := List.forall_mem_cons.1 wellFormed
    obtain ⟨first, others⟩ := List.forall_mem_cons.1 calm
    rw [List.flatMap_cons, List.append_assoc]
    cases s with
    | member name =>
      have point : ∀ c ∈ ['.'], Text.isWord c = false := by decide
      rw [show Segment.text (.member name) = ['.'] ++ name from rfl, List.append_assoc,
        collect_visible point, collect_word barren wf_first.2 wf_others, ih wf_others others]
    | key name =>
      have quoted : Text.apostrophe ∉ name := fun inside => by
        simpa using wf_first.2 _ inside
      have opening : ∀ c ∈ ['[', Text.apostrophe], Text.isWord c = false := by decide
      have closing : ∀ c ∈ [Text.apostrophe, ']'], Text.isWord c = false := by decide
      have split : Segment.text (.key name) ++ (segments.flatMap Segment.text ++ tail) =
          ['[', Text.apostrophe] ++ (name ++ Text.apostrophe :: (']' ::
            (segments.flatMap Segment.text ++ tail))) := by
        simp [Segment.text]
      rw [split, collect_visible opening, collect_key first quoted]
      exact (collect_visible closing _).trans (ih wf_others others)

theorem collect_reference {tail : Text} {r : Reference} (barren : Barren tail) (h : r.WellFormed)
    (calm : ∀ s ∈ r.segments, s.IsCalm) :
    Text.collect Comparison.read (r.text ++ tail) = Text.collect Comparison.read tail := by
  rw [Reference.text, List.append_assoc, collect_word barren h.root.2 h.segments,
    collect_segments barren h.segments calm]

/-- Behind a test there stands no operator, so that its last word is not compared. -/
theorem barren_of_follows {rest : Text} (h : Follows ['>', '<', '=', '!'] rest) : Barren rest := by
  intro r wellFormed
  have operator : Operator.read (Text.trimStart rest) = none := Operator.read_eq_none h.symbol
  simp [Comparison.read, Reference.read_append wellFormed h.token, operator]

theorem barren_of_letter {left right rest : Text} {o : Operator} {c : Char} (blank_left : Blank left)
    (known : o.Known) (blank_right : Blank right) (letter : Text.isDigit c = false)
    (visible : Text.isBlank c = false) (other : c ≠ '=') :
    Barren (left ++ (o.symbol ++ (right ++ c :: rest))) := by
  intro r wellFormed
  have equals : Stops (· == '=') (right ++ c :: rest) := by
    refine blank_right.stops_append (fun d blank => ?_) (Text.stops_cons.2 (by simpa using other))
    rw [beq_eq_false_iff_ne]
    rintro rfl
    exact absurd blank (by decide)
  have number : Numeral.read (c :: rest) = none := by
    simp [Numeral.read, Text.run_eq_none (Text.stops_cons.2 letter)]
  simp only [Comparison.read,
    Reference.read_append wellFormed (Operator.stops_reference blank_left known _),
    Text.trimStart_append blank_left,
    Text.trimStart_of_stops (Operator.stops_symbol known (by decide) _),
    Operator.read_append known equals, Text.trimStart_append blank_right,
    Text.trimStart_of_stops (Text.stops_cons.2 visible), number, Option.bind_eq_bind,
    Option.bind_some, Option.bind_none]

theorem collect_truth {rest : Text} (value : Bool) (follows : Follows ['>', '<', '=', '!'] rest) :
    Text.collect Comparison.read ((Operand.truth value).ruleText ++ rest) =
      Text.collect Comparison.read rest := by
  have word : ∀ c ∈ (Operand.truth value).ruleText, Text.isWord c = true := by
    cases value <;> decide
  have alone : ∀ s ∈ ([] : List Segment), s.WellFormed := fun _ => nofun
  exact collect_word (barren_of_follows follows) word alone

namespace WrittenTest

theorem collect_mark (t : WrittenTest) (rest : Text) :
    Text.collect Comparison.read (t.mark ++ rest) = Text.collect Comparison.read rest := by
  refine collect_visible ?_ rest
  unfold mark
  split <;> decide

/-- The search finds a test for a number, and nothing of a test for a truth value. -/
theorem collect_text {t : WrittenTest} (h : t.WellFormed)
    (calm : t.isNumeric = false → ∀ s ∈ t.reference.segments, s.IsCalm) {rest : Text}
    (follows : Follows ['>', '<', '=', '!'] rest) :
    Text.collect Comparison.read (t.text ++ rest) =
      t.comparison?.toList ++ Text.collect Comparison.read rest := by
  obtain ⟨marked, r, left, o, right, operand⟩ := t
  rw [text, List.append_assoc, collect_mark]
  cases operand with
  | number n =>
    have written : WrittenComparison.WellFormed ⟨r, left, o, right, n⟩ :=
      ⟨h.reference, h.left, h.operator, h.right, h.operand⟩
    have stops : Stops continuesNumber rest :=
      follows.token.mono fun _ => not_continuesNumber_of_not_continuesReference
    exact WrittenComparison.collect_text written stops
  | truth value =>
    obtain ⟨c, more, same, letter, visible, other⟩ : ∃ c more,
        (Operand.truth value).ruleText = c :: more ∧ Text.isDigit c = false ∧
          Text.isBlank c = false ∧ c ≠ '=' := by
      cases value
      · exact ⟨'f', _, rfl, by decide, by decide, by decide⟩
      · exact ⟨'t', _, rfl, by decide, by decide, by decide⟩
    have barren : Barren
        (left ++ (o.symbol ++ (right ++ ((Operand.truth value).ruleText ++ rest)))) := by
      rw [same]
      exact barren_of_letter h.left h.operator h.right letter visible other
    have signs : ∀ c ∈ left ++ (o.symbol ++ right), Text.isWord c = false := by
      refine List.forall_mem_append.2 ⟨fun c inside => Text.not_isWord_of_isBlank (h.left c inside),
        List.forall_mem_append.2 ⟨Operator.not_isWord_symbol h.operator,
          fun c inside => Text.not_isWord_of_isBlank (h.right c inside)⟩⟩
    have between := collect_visible signs ((Operand.truth value).ruleText ++ rest)
    simp only [List.append_assoc] at between ⊢
    rw [collect_reference barren h.reference (calm rfl), between, collect_truth value follows]
    rfl

theorem comparison?_cases (t : WrittenTest) :
    (t.isNumeric = true ∧ ∃ c, t.comparison? = some c ∧ c.reference = t.reference.text) ∨
      (t.isNumeric = false ∧ t.comparison? = none) := by
  unfold isNumeric comparison?
  cases t.operand with
  | number n => exact .inl ⟨rfl, _, rfl, rfl⟩
  | truth value => exact .inr ⟨rfl, rfl⟩

theorem roots_filterMap {ts : List WrittenTest} (wellFormed : ∀ t ∈ ts, t.WellFormed) :
    (ts.filterMap comparison?).map (fun c => Variable.rootOf c.reference) =
      (ts.filter isNumeric).map fun t => t.reference.root := by
  induction ts with
  | nil => rfl
  | cons t ts ih =>
    obtain ⟨first, others⟩ := List.forall_mem_cons.1 wellFormed
    rcases t.comparison?_cases with ⟨numeric, c, found, reference⟩ | ⟨other, found⟩
    · rw [List.filterMap_cons_some found, List.filter_cons_of_pos numeric, List.map_cons,
        List.map_cons, reference, Variable.rootOf_text first.reference, ih others]
    · rw [List.filterMap_cons_none found, List.filter_cons_of_neg (by simp [other]), ih others]

end WrittenTest

/-! ### Rules in the search -/

theorem Expression.Follows.behind {symbols : List Char} {gap rest : Text}
    (h : Follows symbols rest) (blank : Blank gap) : Follows symbols (gap ++ rest) where
  token := blank.stops_append (fun _ => not_continuesReference_of_isBlank) h.token
  symbol := by
    rw [Text.trimStart_append blank]
    exact h.symbol

namespace BuiltFrom

variable {ts : List WrittenTest} {text rule : Text}

theorem wellFormed (h : BuiltFrom ts text) : ∀ t ∈ ts, t.WellFormed := by
  induction h with
  | test wellFormed => exact List.forall_mem_singleton.2 wellFormed
  | spaced _ _ _ ih | group _ ih | not _ ih => exact ih
  | and _ _ ih ih' | or _ _ ih ih' => exact List.forall_mem_append.2 ⟨ih, ih'⟩

theorem collect_joint {found others : List Comparison} {more rest : Text} {s : Char}
    (sign : s ∈ ['&', '|'])
    (first : Text.collect Comparison.read (text ++ (s :: s :: more ++ rest)) =
      found ++ Text.collect Comparison.read (s :: s :: more ++ rest))
    (second : Text.collect Comparison.read (more ++ rest) =
      others ++ Text.collect Comparison.read rest) :
    Text.collect Comparison.read (text ++ (s :: s :: more) ++ rest) =
      found ++ others ++ Text.collect Comparison.read rest := by
  have marks : ∀ s ∈ ['&', '|'], ∀ c ∈ [s, s], Text.isWord c = false := by decide
  rw [List.append_assoc, first, List.append_assoc, ← second]
  exact congrArg (found ++ ·) (collect_visible (marks s sign) _)

theorem collect_append (h : BuiltFrom ts text)
    (calm : ∀ t ∈ ts, t.isNumeric = false → ∀ s ∈ t.reference.segments, s.IsCalm) {rest : Text}
    (follows : Follows ['>', '<', '=', '!'] rest) :
    Text.collect Comparison.read (text ++ rest) =
      ts.filterMap WrittenTest.comparison? ++ Text.collect Comparison.read rest := by
  -- no sign that may stand behind a phrase goes on with its last test
  have signs : ∀ c ∈ [')', '&', '|'], ∀ rest, Follows ['>', '<', '=', '!'] (c :: rest) := by
    have kinds : ∀ c ∈ [')', '&', '|'], continuesReference c = false ∧ Text.isBlank c = false ∧
        ['>', '<', '=', '!'].contains c = false := by decide
    intro c sign rest
    obtain ⟨token, visible, outside⟩ := kinds c sign
    exact follows_mark Text.blank_nil token visible outside
  induction h generalizing rest with
  | @test t wellFormed =>
    rw [WrittenTest.collect_text wellFormed (calm t List.mem_cons_self) follows]
    cases found : t.comparison? <;> simp [found]
  | spaced blank blank' _ ih =>
    rw [List.append_assoc, List.append_assoc, collect_gap blank, ih calm (follows.behind blank'),
      collect_gap blank']
  | @group ts text _ ih =>
    have opening : ∀ c ∈ ['('], Text.isWord c = false := by decide
    have closing : ∀ c ∈ [')'], Text.isWord c = false := by decide
    calc Text.collect Comparison.read ('(' :: (text ++ [')']) ++ rest)
        = Text.collect Comparison.read (text ++ ')' :: rest) := by
          rw [List.cons_append, List.append_assoc]
          exact collect_visible opening _
      _ = ts.filterMap WrittenTest.comparison? ++ Text.collect Comparison.read (')' :: rest) :=
          ih calm (signs ')' (by decide) rest)
      _ = ts.filterMap WrittenTest.comparison? ++ Text.collect Comparison.read rest :=
          congrArg (_ ++ ·) (collect_visible closing rest)
  | not _ ih =>
    have sign : ∀ c ∈ ['!'], Text.isWord c = false := by decide
    exact (collect_visible sign _).trans (ih calm follows)
  | and _ _ ih ih' =>
    obtain ⟨first, second⟩ := List.forall_mem_append.1 calm
    rw [List.filterMap_append]
    exact collect_joint (by decide) (ih first (signs '&' (by decide) _)) (ih' second follows)
  | or _ _ ih ih' =>
    obtain ⟨first, second⟩ := List.forall_mem_append.1 calm
    rw [List.filterMap_append]
    exact collect_joint (by decide) (ih first (signs '|' (by decide) _)) (ih' second follows)

/-- What is named in a rule: of all roots that are not in the catalog those that are compared with
a number, each once and in the order in which they first appear. The others are not reported. -/
theorem exists_reported (built : BuiltFrom ts rule)
    (calm : ∀ t ∈ ts, t.isNumeric = false → ∀ s ∈ t.reference.segments, s.IsCalm)
    (catalog : Catalog) :
    ∃ roots, catalog.unknownReferences rule = roots.map Catalog.unknownWarning ∧
      FirstAppearances (· ∉ catalog.roots)
        ((ts.filter WrittenTest.isNumeric).map fun t => t.reference.root) roots ∧
      ((∀ t ∈ ts, t.reference.root ∉ catalog.roots → t.reference.root ∈ roots) ↔
        ∀ t ∈ ts, t.reference.root ∉ catalog.roots →
          ∃ u ∈ ts, u.isNumeric = true ∧ u.reference.root = t.reference.root) := by
  obtain ⟨roots, appear, same⟩ := catalog.exists_firstAppearances rule
  have found := built.collect_append calm (follows_gap Text.blank_nil _)
  rw [List.append_nil, show Text.collect Comparison.read [] = [] from rfl, List.append_nil] at found
  rw [found, WrittenTest.roots_filterMap built.wellFormed] at appear
  refine ⟨roots, same, appear, forall₂_congr fun t _ => imp_congr_right fun unknown => ?_⟩
  rw [appear.mem_iff, List.mem_map]
  simp only [List.mem_filter, and_assoc, unknown, not_false_eq_true, and_true]

end BuiltFrom

namespace Sample

def levelTest : WrittenTest :=
  ⟨true, ⟨"level".toList, []⟩, [' '], .ge, [' '], .number ⟨['5'], []⟩⟩

def flagTest : WrittenTest := ⟨false, ⟨"flg".toList, []⟩, [' '], .eq, [' '], .truth true⟩

theorem builtFrom_tests : BuiltFrom [levelTest, flagTest] "#level >= 5 && flg == true".toList := by
  have blank := Text.blank_space
  have level : levelTest.WellFormed :=
    ⟨⟨⟨by decide, by decide⟩, fun _ => nofun⟩, blank, nofun, blank,
      ⟨⟨by decide, by decide⟩, by decide⟩⟩
  have flag : flagTest.WellFormed :=
    ⟨⟨⟨by decide, by decide⟩, fun _ => nofun⟩, blank, nofun, blank, trivial⟩
  exact .and (.spaced Text.blank_nil blank (.test level)) (.spaced blank Text.blank_nil (.test flag))

end Sample

namespace BuiltFrom

open Sample (levelTest flagTest)

theorem reported_level :
    ∃ roots, Catalog.default.unknownReferences "#level >= 5 && flg == true".toList =
        roots.map Catalog.unknownWarning ∧
      FirstAppearances (· ∉ Catalog.default.roots) ["level".toList] roots := by
  have calm : ∀ t ∈ [levelTest, flagTest],
      t.isNumeric = false → ∀ s ∈ t.reference.segments, s.IsCalm := by
    simp [levelTest, flagTest]
  obtain ⟨roots, same, appear, -⟩ :=
    exists_reported Sample.builtFrom_tests calm Catalog.default
  exact ⟨roots, same, appear⟩

/-- A root that is compared with a truth value only is not in the catalog, and is not reported. -/
theorem unreported_flag :
    BuiltFrom [levelTest, flagTest] "#level >= 5 && flg == true".toList ∧
      flagTest.reference.root ∉ Catalog.default.roots ∧
      Catalog.unknownWarning flagTest.reference.root ∉
        Catalog.default.unknownReferences "#level >= 5 && flg == true".toList :=
  ⟨Sample.builtFrom_tests, by decide +kernel, by decide +kernel⟩

end BuiltFrom

end ProgressRules

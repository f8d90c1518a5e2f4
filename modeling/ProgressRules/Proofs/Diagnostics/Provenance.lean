import ProgressRules.Proofs.Conversion.Result
import ProgressRules.Proofs.Diagnostics.Scanning
import ProgressRules.Proofs.Normalization.Idempotence
import ProgressRules.Proofs.Text.Words

/-! Where the variables of a formula come from. A source text without marks gets its marks from
the catalog, and every comparison that is recognised begins with one. So the variables that are
compared belong to the catalog, and a rule with a formula has no unknown ones. -/

namespace ProgressRules

open Text (IsRun Stops Piece isWord isBlank textOf Separated WordAt)

namespace Normalization

variable {known : Text → Bool}

/-- A word behind a mark is known. There is a mark before the pieces if `marked` is true. -/
def MarksKnown (known : Text → Bool) : (marked : Bool) → List Piece → Prop
  | _, [] => True
  | _, .mark c :: pieces => MarksKnown known (c == '#') pieces
  | marked, .word w :: pieces => (marked = true → known w = true) ∧ MarksKnown known false pieces

theorem MarksKnown.known_of_append {marked : Bool} {a b : List Piece} {w : Text}
    (h : MarksKnown known marked (a ++ .mark '#' :: .word w :: b)) : known w = true := by
  induction a generalizing marked with
  | nil => exact h.1 rfl
  | cons piece a ih =>
    cases piece with
    | mark c => exact ih h
    | word v => exact ih h.2

theorem unmarked_keyword (w : Text) : Piece.mark '#' ∉ keyword w := by
  unfold keyword
  split
  · simp
  split
  · simp
  split
  · simp
  split <;> simp

theorem other_of_not_mem {c : Char} {pieces : List Piece}
    (unmarked : Piece.mark '#' ∉ .mark c :: pieces) : (c == '#') = false := by
  rw [beq_eq_false_iff_ne]
  rintro rfl
  exact unmarked List.mem_cons_self

/-- The marks of a rewriting are those that it writes itself, if there was none. -/
theorem marksKnown_rewrite (noTrue : known "True".toList = false)
    (noFalse : known "False".toList = false) {pieces : List Piece}
    (unmarked : Piece.mark '#' ∉ pieces) (skipping : Bool) (before : Option Char) :
    MarksKnown known false (rewrite known skipping before pieces) := by
  induction pieces generalizing skipping before with
  | nil => trivial
  | cons piece pieces ih =>
    have others : Piece.mark '#' ∉ pieces := fun inside => unmarked (List.mem_cons_of_mem _ inside)
    cases piece with
    | mark c =>
      rw [rewrite]
      split
      · exact ih others _ _
      · rw [MarksKnown, other_of_not_mem unmarked]
        exact ih others _ _
    | word w =>
      have main : ∀ marked, (marked = true → known w = true) → MarksKnown known marked
          (if w = notWord && followedByBlank pieces then
            .mark '!' :: rewrite known true w.getLast? pieces
          else keyword w ++ rewrite known false w.getLast? pieces) := by
        intro marked hw
        split
        · exact ih others _ _
        · have keeps := unmarked_keyword w
          rcases keyword_cases w with ⟨c, marks, -⟩ | ⟨v, word, -, -, cases⟩
          · rw [marks] at keeps ⊢
            rw [List.cons_append, List.singleton_append, MarksKnown, MarksKnown,
              other_of_not_mem keeps]
            exact ih others _ _
          · rw [word]
            refine ⟨fun behind => ?_, ih others _ _⟩
            -- what is written for a truth value has no mark, since the word for it has none
            rcases cases with rfl | ⟨rfl, -⟩ | ⟨rfl, -⟩
            · exact hw behind
            · exact absurd (hw behind) (by rw [noTrue]; exact Bool.false_ne_true)
            · exact absurd (hw behind) (by rw [noFalse]; exact Bool.false_ne_true)
      rw [rewrite]
      split
      · rename_i marked
        exact main _ fun _ => (Bool.and_eq_true_iff.1 marked).1
      · exact main _ fun behind => absurd behind Bool.false_ne_true

theorem not_mem_pieces {pieces : List Piece} {c : Char} (h : c ∉ textOf pieces) :
    Piece.mark c ∉ pieces :=
  fun inside => h (List.mem_flatMap.2 ⟨_, inside, List.mem_singleton_self c⟩)

end Normalization

open Normalization in
/-- What stands behind a mark of the rule is a root. -/
theorem mem_roots_of_marked {vars : List Variable} {source rule : Text}
    (words : ∀ root ∈ rootsOf vars, IsRun isWord root) (noTrue : "True".toList ∉ rootsOf vars)
    (noFalse : "False".toList ∉ rootsOf vars) (unmarked : '#' ∉ source)
    (normalized : normalize vars source = .ok rule) {front w rest : Text}
    (split : rule = front ++ '#' :: (w ++ rest)) (run : IsRun isWord w)
    (stops : Stops isWord rest) : w ∈ rootsOf vars := by
  obtain ⟨pieces, separated, rfl⟩ := Text.exists_pieces source
  cases visible : Text.blankOnly (textOf pieces) with
  | true =>
    rw [normalize, if_pos visible] at normalized
    cases normalized
    simp at split
  | false =>
    rw [normalize_textOf words separated visible] at normalized
    cases normalized
    have separated' := separated_rewrite (rootsOf vars).contains false none separated
    have word : WordAt none (textOf (rewrite (rootsOf vars).contains false none pieces))
        (front ++ ['#']) w rest :=
      ⟨by simpa using split, run, by rw [List.getLast?_concat]; rfl, stops⟩
    obtain ⟨a, b, same, before, -⟩ := word.exists_pieces separated'
    have marks : MarksKnown (rootsOf vars).contains false
        (rewrite (rootsOf vars).contains false none pieces) :=
      marksKnown_rewrite (by simpa using noTrue) (by simpa using noFalse)
        (not_mem_pieces unmarked) false none
    rw [same] at separated' marks
    obtain ⟨a, rfl⟩ := separated'.exists_last_mark (by decide) before
    rw [List.append_assoc] at marks
    simpa using marks.known_of_append

/-! ### References -/

theorem WrittenComparison.text_append_root (w : WrittenComparison) (rest : Text) :
    w.text ++ rest = w.reference.root ++ (w.reference.segments.flatMap Segment.text ++
      (w.left ++ (w.operator.symbol ++ (w.right ++ (w.number.text ++ rest))))) := by
  simp [text, Reference.text]

theorem WrittenComparison.WellFormed.stops_root {w : WrittenComparison} (h : w.WellFormed)
    (rest : Text) : Stops isWord (w.reference.segments.flatMap Segment.text ++
      (w.left ++ (w.operator.symbol ++ (w.right ++ (w.number.text ++ rest))))) := by
  refine Segment.stops_flatMap _ ?_
  exact (Operator.stops_reference h.left h.operator _).mono
    fun c => not_isWord_of_not_continuesReference

/-! ### Rules and their conversions -/

section

variable {catalog : Catalog} {source rule : Text}
  (words : ∀ root ∈ catalog.roots, IsRun isWord root) (noTrue : "True".toList ∉ catalog.roots)
  (noFalse : "False".toList ∉ catalog.roots) (unmarked : '#' ∉ source)
  (normalized : normalize catalog.toList source = .ok rule)
include words noTrue noFalse unmarked normalized

theorem rootOf_mem_roots {t : Condition} (accepted : Condition.ofRule? rule = some t)
    {c : Comparison} (inside : c ∈ t.comparisons) :
    Variable.rootOf c.reference ∈ catalog.roots := by
  obtain ⟨w, front, rest, wellFormed, rfl, split⟩ := Condition.exists_written accepted inside
  have root : Variable.rootOf w.reference.text = w.reference.root :=
    Variable.rootOf_text wellFormed.reference
  rw [WrittenComparison.markedText, List.cons_append, w.text_append_root] at split
  rw [WrittenComparison.comparison, root]
  exact mem_roots_of_marked words noTrue noFalse unmarked normalized split
    wellFormed.reference.root (wellFormed.stops_root rest)

end

theorem unknownWarning_ne_neverSatisfied (root : Text) :
    Catalog.unknownWarning root ≠ Conversion.neverSatisfied := by
  intro same
  have front : "Condition r".toList = "Condition c".toList := congrArg (List.take 11) same
  exact absurd front (by decide)

open Conversion Normalization in
/-- A formula is only ever built over the variables of the catalog, if the source text has no
marks. In what is recognised of its rule, flat or nested, each comparison has a root of the
catalog, and a conversion with a formula warns of no unknown variable. -/
theorem convert_known {catalog : Catalog} {source : Text}
    (words : ∀ root ∈ catalog.roots, IsRun isWord root) (noTrue : "True".toList ∉ catalog.roots)
    (noFalse : "False".toList ∉ catalog.roots) (unmarked : '#' ∉ source) :
    ∃ rule, normalize catalog.toList source = .ok rule ∧
      (∀ c ∈ (decompose rule).comparisons, Variable.rootOf c.reference ∈ catalog.roots) ∧
      (∀ t, Condition.ofRule? rule = some t →
        ∀ c ∈ t.comparisons, Variable.rootOf c.reference ∈ catalog.roots) ∧
      ∀ settings, (settings.checkConsistency = false →
          ∃ c, convert settings catalog source = .ok c) ∧
        ∀ c, convert settings catalog source = .ok c →
          c.rule = rule ∧ c.decomposition = decompose rule ∧
          (c.convertible = true → ∀ root, Catalog.unknownWarning root ∉ c.warnings) := by
  obtain ⟨rule, normalized⟩ :=
    exists_normalize (fun root member => plain_of_word (words root member)) source
  have nested : ∀ t, Condition.ofRule? rule = some t →
      ∀ c ∈ t.comparisons, Variable.rootOf c.reference ∈ catalog.roots :=
    fun t accepted c => rootOf_mem_roots words noTrue noFalse unmarked normalized accepted
  refine ⟨rule, normalized, fun c inside => ?_, nested, fun settings => ⟨fun off => ?_,
    fun c converted => ?_⟩⟩
  · have recognised : (decompose rule).failed = false := by
      rw [Decomposition.failed, List.isEmpty_eq_false_iff]
      exact List.ne_nil_of_mem inside
    obtain ⟨t, standsFor, accepted⟩ := Decomposition.exists_standsFor recognised
    exact nested t accepted c (standsFor.comparisons_eq ▸ inside)
  · exact exists_convert normalized (exists_ofRule catalog source (consistencyOf_off off _ _))
  · have about := isAbout_of_convert normalized converted
    refine ⟨about.rule_eq, about.decomposition, fun convertible root => ?_⟩
    obtain ⟨t, accepted⟩ := about.accepted convertible
    have read := accepted.ofRule?_eq
    rw [about.warnings, catalog.unknownReferences_eq_nil read (nested t read), List.nil_append]
    split
    · exact fun inside => unknownWarning_ne_neverSatisfied root (List.mem_singleton.1 inside)
    · exact List.not_mem_nil

/-- A mistyped variable keeps a rule from having a formula. -/
theorem convert_mistyped :
    ∃ c, convert Settings.default Catalog.default
        "progressField > 0.25 and progresField < 0.5".toList = .ok c ∧
      Catalog.unknownWarning "progresField".toList ∈ c.warnings ∧ c.convertible = false := by
  obtain ⟨rule, normalized, -, -, result⟩ := @convert_known Catalog.default
    "progressField > 0.25 and progresField < 0.5".toList (by unfold IsRun; decide +kernel)
    (by decide +kernel) (by decide +kernel) (by decide)
  obtain ⟨c, converted⟩ := (result Settings.default).1 rfl
  have computed : (normalize Catalog.default.toList
      "progressField > 0.25 and progresField < 0.5".toList).toOption =
        some "#progressField > 0.25 && progresField < 0.5".toList := by
    decide +kernel
  have warned : Catalog.default.unknownReferences
      "#progressField > 0.25 && progresField < 0.5".toList =
        [Catalog.unknownWarning "progresField".toList] := by
    decide +kernel
  have about := Conversion.isAbout_of_convert normalized converted
  rw [normalized] at computed
  cases Option.some.inj computed
  have inside : Catalog.unknownWarning "progresField".toList ∈ c.warnings := by
    rw [about.warnings, warned]
    exact List.mem_cons_self
  refine ⟨c, converted, inside, Bool.eq_false_iff.2 fun convertible => ?_⟩
  exact ((result Settings.default).2 c converted).2.2 convertible _ inside

end ProgressRules

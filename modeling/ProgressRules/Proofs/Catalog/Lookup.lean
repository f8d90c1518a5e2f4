import Mathlib.Data.List.Nodup
import Mathlib.Data.List.TakeWhile
import ProgressRules.Completion
import ProgressRules.Proofs.Text.Reading

/-! Finding the variables of a catalog. What is asked for loses its marks, and the paths keep
theirs. So a variable is found by its path, and offered for every beginning of it, unless the path
begins with a mark. -/

namespace ProgressRules

def Variable.IsMarked (v : Variable) : Prop := v.path.head? = some '#'

namespace Catalog

/-! ### Marks -/

def MarksOnly (text : Text) : Prop := ∀ c ∈ text, c = '#'

theorem head?_dropMarks (text : Text) : (dropMarks text).head? ≠ some '#' := by
  intro mark
  have stops := Text.stops_dropWhile (· == '#') text '#' mark
  exact absurd stops (by decide)

theorem dropMarks_of_unmarked {text : Text} (unmarked : text.head? ≠ some '#') :
    dropMarks text = text := by
  cases text with
  | nil => rfl
  | cons c text =>
    have other : ¬(c == '#') = true := by
      intro same
      exact unmarked (congrArg some (eq_of_beq same))
    exact List.dropWhile_cons_of_neg other

theorem dropMarks_eq_nil {text : Text} : dropMarks text = [] ↔ MarksOnly text := by
  simp [dropMarks, MarksOnly, List.dropWhile_eq_nil_iff]

/-! ### What is found -/

variable {catalog : Catalog} {v w : Variable}

theorem eq_of_path_eq (hv : v ∈ catalog.toList) (hw : w ∈ catalog.toList)
    (same : v.path = w.path) : v = w :=
  List.inj_on_of_nodup_map catalog.paths_nodup hv hw same

theorem lookup?_eq_some {path : Text} :
    catalog.lookup? path = some v ↔ v ∈ catalog.toList ∧ v.path = dropMarks path := by
  constructor
  · intro found
    exact ⟨List.mem_of_find?_eq_some found, eq_of_beq (List.find?_some found :)⟩
  · rintro ⟨inside, same⟩
    cases found : catalog.lookup? path with
    | none =>
      have other := List.find?_eq_none.1 found v inside
      exact absurd (beq_iff_eq.2 same) other
    | some w =>
      have path_w : w.path = dropMarks path := eq_of_beq (List.find?_some found :)
      have inside_w := List.mem_of_find?_eq_some found
      rw [eq_of_path_eq inside inside_w (same.trans path_w.symm)]

theorem mem_matching {typed : Text} :
    v ∈ catalog.matching typed ↔ v ∈ catalog.toList ∧ dropMarks typed <+: v.path := by
  rw [matching, List.mem_filter]
  apply and_congr_right
  intro _
  rw [Text.startsWith_iff]
  constructor
  · rintro ⟨rest, split⟩
    exact ⟨rest, split.symm⟩
  · rintro ⟨rest, split⟩
    exact ⟨rest, split.symm⟩

theorem matches_iff {typed : Text} (inside : v ∈ catalog.toList) (initial : typed <+: v.path) :
    v ∈ catalog.matching typed ↔ ¬v.IsMarked ∨ MarksOnly typed := by
  rw [mem_matching, and_iff_right inside]
  constructor
  · intro begins
    by_cases marked : v.IsMarked
    · right
      rw [← dropMarks_eq_nil]
      -- what is left begins as the path does, and so with a mark, unless nothing is left
      by_contra nonempty
      obtain ⟨rest, split⟩ := begins
      rw [Variable.IsMarked, ← split, List.head?_append_of_ne_nil _ nonempty] at marked
      exact head?_dropMarks typed marked
    · exact .inl marked
  · rintro (unmarked | marks)
    · have unmarked_typed : typed.head? ≠ some '#' := by
        intro mark
        have nonempty : typed ≠ [] := by
          rintro rfl
          cases mark
        obtain ⟨rest, split⟩ := initial
        apply unmarked
        rw [Variable.IsMarked, ← split, List.head?_append_of_ne_nil _ nonempty, mark]
      rwa [dropMarks_of_unmarked unmarked_typed]
    · rw [dropMarks_eq_nil.2 marks]
      exact List.nil_prefix

theorem unmarked_keywords : ∀ item ∈ Completion.keywords, item.label.head? ≠ some '#' := by
  decide

theorem suggested_iff {typed : Text} (inside : v ∈ catalog.toList)
    (initial : typed <+: v.path) :
    (∃ item ∈ Completion.suggest catalog typed, item.label = v.path) ↔
      ¬v.IsMarked ∨ MarksOnly typed := by
  rw [← matches_iff inside initial]
  constructor
  · rintro ⟨item, suggested, label⟩
    rcases List.mem_append.1 suggested with offered | keyword
    · obtain ⟨w, found, rfl⟩ := List.mem_map.1 offered
      have same : w.path = v.path := label
      rwa [← eq_of_path_eq (mem_matching.1 found).1 inside same]
    · have unmarked := unmarked_keywords item (List.mem_filter.1 keyword).1
      rw [label] at unmarked
      exact (matches_iff inside initial).2 (.inl unmarked)
  · intro found
    refine ⟨Completion.ofVariable v, ?_, rfl⟩
    apply List.mem_append_left
    exact List.mem_map_of_mem found

/-- A variable that is kept counts as contained. It is found by its path exactly if the path does
not begin with a mark, and then it is offered for every beginning of the path. A variable with a
marked path is offered only while nothing but marks is typed. -/
theorem found_of_kept {vars : List Variable} {v : Variable}
    (kept : v ∈ (ofList vars).toList) :
    (ofList vars).contains v.path = true ∧
    ((ofList vars).lookup? v.path = some v ↔ ¬v.IsMarked) ∧
    ∀ typed, typed <+: v.path →
      (v ∈ (ofList vars).matching typed ↔ ¬v.IsMarked ∨ MarksOnly typed) ∧
      ((∃ item ∈ Completion.suggest (ofList vars) typed, item.label = v.path) ↔
        ¬v.IsMarked ∨ MarksOnly typed) := by
  refine ⟨?_, ?_, ?_⟩
  · apply List.contains_iff_mem.2
    exact List.mem_map_of_mem kept
  · rw [lookup?_eq_some, and_iff_right kept]
    constructor
    · intro same marked
      rw [Variable.IsMarked, same] at marked
      exact head?_dropMarks v.path marked
    · intro unmarked
      exact (dropMarks_of_unmarked unmarked).symm
  · intro typed initial
    exact ⟨matches_iff kept initial, suggested_iff kept initial⟩

/-- A path with a key, entered twice and next to a marked path. -/
theorem found_of_kept_commits :
    (ofList [.ofPath "#level".toList, .ofPath "activity['commits']".toList,
        .ofPath "activity['commits']".toList]).lookup? "activity['commits']".toList =
      some (.ofPath "activity['commits']".toList) ∧
    .ofPath "activity['commits']".toList ∈
      (ofList [.ofPath "#level".toList, .ofPath "activity['commits']".toList,
        .ofPath "activity['commits']".toList]).matching "activity['c".toList := by
  have kept : .ofPath "activity['commits']".toList ∈
      (ofList [.ofPath "#level".toList, .ofPath "activity['commits']".toList,
        .ofPath "activity['commits']".toList]).toList := by decide
  have unmarked : ¬(Variable.ofPath "activity['commits']".toList).IsMarked := by
    unfold Variable.IsMarked
    decide
  obtain ⟨-, found, offered⟩ := found_of_kept kept
  refine ⟨found.2 unmarked, ?_⟩
  exact (offered _ ⟨"ommits']".toList, by decide⟩).1.2 (.inl unmarked)

/-- A marked path is kept, and it is not found by itself. -/
theorem lost_of_marked :
    (ofList [.ofPath "#level".toList]).contains "#level".toList = true ∧
    (ofList [.ofPath "#level".toList]).lookup? "#level".toList = none ∧
    (ofList [.ofPath "#level".toList]).matching "#l".toList = [] ∧
    Completion.suggest (ofList [.ofPath "#level".toList]) "#level".toList = [] := by
  decide

end Catalog

end ProgressRules

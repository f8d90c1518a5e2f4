import ProgressRules.Proofs.Normalization.Authoring

/-! Rules that normalization leaves as they are. Its own results are among them, unless a word
that is written for a truth value is a root and the word that it was written for is none. -/

namespace ProgressRules

namespace Normalization

open Text (IsRun Stops Piece isWord isBlank textOf Separated)

/-- There is nothing to edit: words for operators and truth values are gone, but for a `not`
that nothing blank follows, and the known words are marked, members or quoted. -/
def Settled (known : Text → Bool) : Option Char → List Piece → Prop
  | _, [] => True
  | _, .mark c :: pieces => Settled known (some c) pieces
  | before, .word w :: pieces =>
    keyword w = [.word w] ∧ (known w = true → blocksMark before = true) ∧
      (w = notWord → followedByBlank pieces = false) ∧ Settled known w.getLast? pieces

variable {known : Text → Bool}

theorem rewrite_of_settled {before : Option Char} {pieces : List Piece}
    (h : Settled known before pieces) : rewrite known false before pieces = pieces := by
  induction pieces generalizing before with
  | nil => rfl
  | cons piece pieces ih =>
    cases piece with
    | mark c =>
      rw [rewrite, Bool.false_and, if_neg Bool.false_ne_true, ih h]
    | word w =>
      obtain ⟨kept, blocked, negation, more⟩ := h
      have unmarked : (known w && !blocksMark before) = false := by
        cases hw : known w with
        | false => rfl
        | true => rw [blocked hw]; rfl
      have affirmed : (decide (w = notWord) && followedByBlank pieces) = false := by
        by_cases same : w = notWord
        · rw [negation same, Bool.and_false]
        · rw [decide_eq_false same, Bool.false_and]
      rw [rewrite, unmarked, affirmed, kept, ih more]
      rfl

/-! ### What a rewriting writes -/

/-- A word becomes two marks, or a word that stays as it is. -/
theorem keyword_cases (w : Text) :
    (∃ c, keyword w = [.mark c, .mark c] ∧ isBlank c = false) ∨
      ∃ v, keyword w = [.word v] ∧ keyword v = [.word v] ∧ (v = notWord → w = notWord) ∧
        (v = w ∨ w = "True".toList ∧ v = "true".toList ∨
          w = "False".toList ∧ v = "false".toList) := by
  unfold keyword
  split
  · exact .inl ⟨'&', rfl, by decide⟩
  split
  · exact .inl ⟨'|', rfl, by decide⟩
  split
  · rename_i same
    exact .inr ⟨_, rfl, by decide, (absurd · (by decide)), .inr (.inl ⟨same, rfl⟩)⟩
  split
  · rename_i same
    exact .inr ⟨_, rfl, by decide, (absurd · (by decide)), .inr (.inr ⟨same, rfl⟩)⟩
  · rename_i and or true false
    refine .inr ⟨w, rfl, ?_, id, .inl rfl⟩
    rw [if_neg and, if_neg or, if_neg true, if_neg false]

/-- A known word is written for known words only, so that it has got its mark with them. -/
def Covered (known : Text → Bool) : Prop :=
  ∀ w v, keyword w = [.word v] → known v = true → known w = true

theorem covered_iff : Covered known ↔
    (known "true".toList = true → known "True".toList = true) ∧
      (known "false".toList = true → known "False".toList = true) := by
  constructor
  · intro h
    exact ⟨h _ _ (by decide), h _ _ (by decide)⟩
  · rintro ⟨true, false⟩ w v written hv
    rcases keyword_cases w with ⟨c, marks, -⟩ | ⟨v', word, -, -, cases⟩
    · rw [marks] at written
      cases written
    · obtain rfl : v' = v := by simpa [word] using written
      rcases cases with rfl | ⟨rfl, rfl⟩ | ⟨rfl, rfl⟩
      · exact hv
      · exact true hv
      · exact false hv

theorem blocksMark_word {w : Text} (hw : IsRun isWord w) : blocksMark w.getLast? = false := by
  obtain ⟨c, last, word⟩ := hw.getLast
  rw [last]
  simp only [blocksMark, Option.any_some, Bool.or_eq_false_iff, beq_eq_false_iff_ne]
  refine ⟨⟨⟨?_, ?_⟩, ?_⟩, ?_⟩ <;> rintro rfl <;> exact absurd word (by decide)

theorem followedByBlank_rewrite {pieces : List Piece} (h : followedByBlank pieces = false)
    (skipping : Bool) (before : Option Char) :
    followedByBlank (rewrite known skipping before pieces) = false := by
  cases pieces with
  | nil => rfl
  | cons piece pieces =>
    cases piece with
    | mark c =>
      rw [rewrite_mark h]
      exact h
    | word w =>
      rw [rewrite]
      split
      · rfl
      split
      · rfl
      · rcases keyword_cases w with ⟨c, marks, visible⟩ | ⟨v, word, -⟩
        · rw [marks]
          exact visible
        · rw [word]
          rfl

theorem rewrite_word_ne_nil (skipping : Bool) (before : Option Char) (w : Text)
    (pieces : List Piece) : rewrite known skipping before (.word w :: pieces) ≠ [] := by
  rw [rewrite]
  split
  · simp
  split
  · simp
  · rcases keyword_cases w with ⟨c, marks, -⟩ | ⟨v, word, -⟩
    · simp [marks]
    · simp [word]

theorem visible_of_not_followedByBlank {pieces : List Piece} (separated : Separated pieces)
    (nonempty : pieces ≠ []) (h : followedByBlank pieces = false) :
    Text.blankOnly (textOf pieces) = false := by
  have stops := not_followedByBlank h separated
  obtain ⟨piece, more, rfl⟩ := List.exists_cons_of_ne_nil nonempty
  cases piece with
  | mark c => simp [Text.blankOnly, Text.stops_cons.1 stops]
  | word w =>
    obtain ⟨c, w', rfl⟩ := List.exists_cons_of_ne_nil separated.1.1
    simp [Text.blankOnly, Text.stops_cons.1 stops]

/-- Blanks are taken away behind negations only, so something visible is left of the rest. -/
theorem visible_rewrite {pieces : List Piece} (separated : Separated pieces)
    (visible : Text.blankOnly (textOf pieces) = false) (skipping : Bool)
    (before : Option Char) :
    Text.blankOnly (textOf (rewrite known skipping before pieces)) = false := by
  induction pieces generalizing skipping before with
  | nil => cases visible
  | cons piece pieces ih =>
    cases piece with
    | mark c =>
      have visible' : isBlank c = false ∨ Text.blankOnly (textOf pieces) = false := by
        rw [Text.textOf_mark, Text.blankOnly, List.all_cons, Bool.and_eq_false_iff] at visible
        exact visible
      rw [rewrite]
      split
      · rename_i skipped
        have blank : isBlank c = true := (Bool.and_eq_true_iff.1 skipped).2
        refine ih separated.2 (visible'.resolve_left ?_) true _
        simp [blank]
      · rw [Text.textOf_mark, Text.blankOnly, List.all_cons, Bool.and_eq_false_iff]
        exact visible'.imp_right fun h => ih separated.2 h false _
    | word w =>
      exact visible_of_not_followedByBlank (separated_rewrite known skipping before separated)
        (rewrite_word_ne_nil skipping before w pieces) (followedByBlank_rewrite rfl skipping before)

/-! ### Two rewritings -/

theorem settled_rewrite (covered : Covered known) {pieces : List Piece}
    (separated : Separated pieces) (skipping : Bool) {before after : Option Char}
    (blocked : blocksMark before = true → blocksMark after = true) :
    Settled known after (rewrite known skipping before pieces) := by
  -- `before` is the character before the pieces and `after` the one before what is written
  induction pieces generalizing skipping before after with
  | nil => trivial
  | cons piece pieces ih =>
    cases piece with
    | mark c =>
      rw [rewrite]
      split
      · rename_i skipped
        have blank : isBlank c = true := (Bool.and_eq_true_iff.1 skipped).2
        refine ih separated.2 true fun h => ?_
        rw [blocksMark_of_isBlank blank] at h
        cases h
      · exact ih separated.2 false id
    | word w =>
      obtain ⟨hw, stops, separated'⟩ := separated
      have fresh : ∀ after, blocksMark w.getLast? = true → blocksMark after = true := by
        intro after h
        rw [blocksMark_word hw] at h
        cases h
      have main : ∀ after, (known w = true → blocksMark after = true) → Settled known after
          (if w = notWord && followedByBlank pieces then
            .mark '!' :: rewrite known true w.getLast? pieces
          else keyword w ++ rewrite known false w.getLast? pieces) := by
        intro after marked
        split
        · exact ih separated' true (fresh _)
        · rename_i affirmed
          rcases keyword_cases w with ⟨c, marks, -⟩ | ⟨v, word, kept, negation, -⟩
          · rw [marks]
            exact ih separated' false (fresh _)
          · rw [word]
            refine ⟨kept, fun hv => marked (covered w v word hv), fun same => ?_,
              ih separated' false (fresh _)⟩
            refine followedByBlank_rewrite ?_ false _
            simpa [negation same] using affirmed
      rw [rewrite]
      split
      · exact main (some '#') fun _ => rfl
      · rename_i unmarked
        refine main after fun hw => blocked ?_
        simpa [hw] using unmarked

/-! ### Rules for rules -/

def Idempotent (vars : List Variable) : Prop :=
  ∀ source rule, normalize vars source = .ok rule → normalize vars rule = .ok rule

section

variable {vars : List Variable} (words : ∀ root ∈ rootsOf vars, IsRun isWord root)
include words

theorem normalize_word {w : Text} (hw : IsRun isWord w) :
    normalize vars w =
      .ok (textOf ((if w ∈ rootsOf vars then [.mark '#'] else []) ++ keyword w)) := by
  have alone : Separated [.word w] := ⟨hw, Text.stops_nil _, trivial⟩
  have text : w = textOf [.word w] := by simp
  have visible := visible_of_not_followedByBlank alone (by simp) rfl
  have rule := normalize_textOf words alone visible
  rw [← text, rewrite] at rule
  simpa [followedByBlank, rewrite, blocksMark] using rule

theorem idempotent_of_covered (covered : Covered (rootsOf vars).contains) : Idempotent vars := by
  intro source rule normalized
  obtain ⟨pieces, separated, rfl⟩ := Text.exists_pieces source
  cases visible : Text.blankOnly (textOf pieces) with
  | true =>
    rw [normalize, if_pos visible] at normalized
    cases normalized
    rfl
  | false =>
    rw [normalize_textOf words separated visible] at normalized
    cases normalized
    rw [normalize_textOf words (separated_rewrite _ _ _ separated)
      (visible_rewrite separated visible _ _),
      rewrite_of_settled (settled_rewrite covered separated false id)]

/-- Otherwise a second pass marks the word `v` that the first one has written for `w`. -/
theorem mem_of_idempotent (h : Idempotent vars) {w v : Text} (hw : IsRun isWord w)
    (hv : IsRun isWord v) (written : keyword w = [.word v]) (kept : keyword v = [.word v])
    (inside : v ∈ rootsOf vars) : w ∈ rootsOf vars := by
  refine Decidable.byContradiction fun outside => ?_
  have first : normalize vars w = .ok v := by
    simp [normalize_word words hw, outside, written]
  have second := h w v first
  rw [normalize_word words hv, if_pos inside, kept] at second
  simp at second

end

end Normalization

open Normalization Text in
/-- Every text has a rule, and to normalize it once more changes nothing, unless the word for a
truth value is a root and the word that it is written for is none. -/
theorem normalize_idempotent_iff {vars : List Variable}
    (words : ∀ root ∈ rootsOf vars, IsRun isWord root) :
    (∀ source, ∃ rule, normalize vars source = .ok rule) ∧
      (Idempotent vars ↔
        ("true".toList ∈ rootsOf vars → "True".toList ∈ rootsOf vars) ∧
          ("false".toList ∈ rootsOf vars → "False".toList ∈ rootsOf vars)) ∧
      ("true".toList ∉ rootsOf vars → "false".toList ∉ rootsOf vars → Idempotent vars) := by
  have exactly : Idempotent vars ↔
      ("true".toList ∈ rootsOf vars → "True".toList ∈ rootsOf vars) ∧
        ("false".toList ∈ rootsOf vars → "False".toList ∈ rootsOf vars) := by
    constructor
    · intro h
      constructor <;> refine mem_of_idempotent words h ⟨?_, ?_⟩ ⟨?_, ?_⟩ ?_ ?_ <;> decide
    · intro h
      refine idempotent_of_covered words (covered_iff.2 ?_)
      simpa using h
  refine ⟨exists_normalize fun root member => plain_of_word (words root member), exactly, ?_⟩
  exact fun true false => exactly.2 ⟨(absurd · true), (absurd · false)⟩

open Normalization Text in
/-- A root `true` is marked where the first pass has written it for `True`, and a root `True`
prevents that. -/
theorem idempotent_truth_roots :
    ¬Idempotent [.ofPath "true".toList] ∧
      Idempotent [.ofPath "true".toList, .ofPath "True".toList] ∧
      Idempotent [.ofPath "progressField".toList] := by
  have alone := @normalize_idempotent_iff [.ofPath "true".toList]
    (by unfold IsRun; decide)
  have both := @normalize_idempotent_iff [.ofPath "true".toList, .ofPath "True".toList]
    (by unfold IsRun; decide)
  have neither := @normalize_idempotent_iff [.ofPath "progressField".toList]
    (by unfold IsRun; decide)
  refine ⟨fun h => ?_, both.2.1.2 (by decide), neither.2.2 (by decide) (by decide)⟩
  exact absurd ((alone.2.1.1 h).1 (by decide)) (by decide)

end ProgressRules

import ProgressRules.Normalization
import ProgressRules.Proofs.Text.Pieces

/-! Normalization as one pass over the pieces of a text. The passes for the roots and for the
keywords do not interfere, because each of them edits whole words and what it writes is not a
word that a later pass looks for. -/

namespace ProgressRules

namespace Normalization

open Text (IsRun Stops Piece isWord isBlank isWordAt textOf Separated editWords ActsOnWords)

/-! ### Marks of roots -/

/-- A word that is known gets a mark, unless it is marked, a member or quoted. -/
def markWord (known : Text → Bool) (before : Option Char) (w : Text) : List Piece :=
  if known w && !blocksMark before then [.mark '#', .word w] else [.word w]

theorem read_of_plain {root : Text} (h : Text.backslash ∉ root) :
    Template.read ('#' :: root) = .ok (('#' :: root).map .literal) := by
  have none : ('#' :: root).contains Text.backslash = false := by
    refine Bool.eq_false_iff.2 fun inside => ?_
    rcases List.mem_cons.1 (by simpa using inside) with same | member
    · exact absurd same (by decide)
    · exact h member
  rw [Template.read, none]
  rfl

theorem plain_of_word {root : Text} (hr : IsRun isWord root) : Text.backslash ∉ root :=
  fun inside => absurd (hr.2 _ inside) (by decide)

theorem read_of_word {root : Text} (hr : IsRun isWord root) :
    Template.read ('#' :: root) = .ok (('#' :: root).map .literal) :=
  read_of_plain (plain_of_word hr)

theorem expand_literals (text whole : Text) :
    Template.expand (text.map .literal) whole = text := by
  induction text with
  | nil => rfl
  | cons c text ih => simpa [Template.expand] using ih

theorem markEdit_acts {root : Text} (hr : IsRun isWord root) :
    ActsOnWords (markEdit root (('#' :: root).map .literal)) (markWord (· == root)) where
  at_mark before c rest mark := by
    unfold markEdit
    rw [Text.dropDelimited_mark hr mark, Option.map_none, ite_self]
  inside before c rest inside char := by
    unfold markEdit
    rw [Text.dropDelimited_inside inside char hr, Option.map_none, ite_self]
  at_word before w rest fresh run stops := by
    unfold markEdit markWord
    rw [Text.dropDelimited_word hr run stops fresh, expand_literals]
    cases blocksMark before with
    | true => exact .inr ⟨rfl, by simp⟩
    | false =>
      by_cases same : w = root
      · refine .inl ?_
        simp [same]
      · refine .inr ⟨?_, ?_⟩ <;> simp [same]

theorem separated_markWord (known : Text → Bool) (before : Option Char) {w : Text}
    (hw : IsRun isWord w) : Separated (markWord known before w) := by
  have alone : Separated [.word w] := ⟨hw, Text.stops_nil _, trivial⟩
  unfold markWord
  split
  · exact ⟨by decide, alone⟩
  · exact alone

theorem markRoot_textOf {root : Text} (hr : IsRun isWord root) {pieces : List Piece}
    (separated : Separated pieces) :
    markRoot root (textOf pieces) =
      .ok (textOf (editWords (markWord (· == root)) none pieces)) := by
  have pass : Text.editAll (markEdit root (('#' :: root).map .literal)) (textOf pieces) = _ :=
    Text.editFrom_words (markEdit_acts hr) separated (.inl rfl)
  have some_root : root.isEmpty = false := by simpa using hr.1
  unfold markRoot
  rw [read_of_word hr, some_root]
  exact congrArg Except.ok pass

/-- A root that is marked already blocks a second mark, so the order of roots does not count. -/
theorem markWord_markWord (known known' : Text → Bool) (before : Option Char)
    (pieces : List Piece) :
    editWords (markWord known') before (editWords (markWord known) before pieces) =
      editWords (markWord fun w => known w || known' w) before pieces := by
  induction pieces generalizing before with
  | nil => rfl
  | cons piece pieces ih =>
    cases piece with
    | mark c => simp only [editWords, ih]
    | word w =>
      -- behind a first mark the word is no longer free
      have marked : blocksMark (some '#') = true := rfl
      cases hk : known w <;> cases hk' : known' w <;> cases hb : blocksMark before <;>
        simp [editWords, markWord, hk, hk', hb, marked, ih]

theorem editWords_markWord_false (before : Option Char) (pieces : List Piece) :
    editWords (markWord fun _ => false) before pieces = pieces := by
  induction pieces generalizing before with
  | nil => rfl
  | cons piece pieces ih =>
    cases piece with
    | mark c => rw [editWords, ih]
    | word w =>
      rw [editWords, ih]
      rfl

theorem markRoots_textOf {roots : List Text} (hr : ∀ root ∈ roots, IsRun isWord root)
    {pieces : List Piece} (separated : Separated pieces) (known : Text → Bool) :
    markRoots roots (textOf (editWords (markWord known) none pieces)) =
      .ok (textOf (editWords (markWord fun w => known w || roots.contains w) none pieces)) := by
  induction roots generalizing known with
  | nil => simp [markRoots, pure, Except.pure]
  | cons root roots ih =>
    obtain ⟨first, others⟩ := List.forall_mem_cons.1 hr
    have separated' : Separated (editWords (markWord known) none pieces) :=
      Text.separated_editWords separated fun before w hw => separated_markWord known before hw
    have rest := ih others fun w => known w || w == root
    unfold markRoots at rest ⊢
    rw [List.foldlM_cons, markRoot_textOf first separated', markWord_markWord]
    refine rest.trans ?_
    simp only [List.contains_cons, Bool.or_assoc]

/-! ### Negations -/

def notWord : Text := "not".toList

def followedByBlank : List Piece → Bool
  | .mark c :: _ => isBlank c
  | _ => false

/-- Writes `!` for the word `not` and the blanks after it. While these are skipped, `skipping`
is true. -/
def negate : (skipping : Bool) → List Piece → List Piece
  | _, [] => []
  | skipping, .mark c :: pieces =>
    if skipping && isBlank c then negate true pieces else .mark c :: negate false pieces
  | _, .word w :: pieces =>
    if w = notWord && followedByBlank pieces then .mark '!' :: negate true pieces
    else .word w :: negate false pieces

theorem negationEdit_mark {before : Option Char} {c : Char} {rest : Text}
    (mark : isWord c = false) : negationEdit before (c :: rest) = none := by
  have none : Text.dropLiteral? "not".toList (c :: rest) = none := by
    refine Text.dropLiteral_eq_none fun rest' same => ?_
    obtain ⟨rfl, -⟩ := List.cons.inj same
    exact absurd mark (by decide)
  rw [negationEdit, none]

theorem negationEdit_inside {before : Option Char} {text : Text}
    (inside : isWordAt before = true) : negationEdit before text = none := by
  unfold negationEdit
  split
  · simp [inside]
  · rfl

theorem isRun_notWord : IsRun isWord notWord := ⟨by decide, by decide⟩

theorem negationEdit_word {before : Option Char} {w rest : Text} (hw : IsRun isWord w)
    (h : w ≠ notWord ∨ Stops isBlank rest) (stops : Stops isWord rest) :
    negationEdit before (w ++ rest) = none := by
  unfold negationEdit
  split
  · rename_i c rest' found
    refine if_neg fun both => ?_
    simp only [Bool.and_eq_true] at both
    have blank := both.1
    have same : w = notWord := by
      have run := Text.run_append hw stops
      have stops' : Stops isWord (c :: rest') :=
        Text.stops_cons.2 (Text.not_isWord_of_isBlank blank)
      have run' := Text.run_append isRun_notWord stops'
      have split : w ++ rest = notWord ++ c :: rest' := Text.dropLiteral_eq_some found
      rw [split, run'] at run
      exact ((Prod.mk.inj (Option.some.inj run)).1).symm
    refine h.elim (· same) fun stops' => ?_
    have split : notWord ++ rest = notWord ++ c :: rest' := by
      have := Text.dropLiteral_eq_some found
      rwa [same] at this
    rw [List.append_cancel_left split, Text.stops_cons, blank] at stops'
    cases stops'
  · rfl

theorem not_followedByBlank {pieces : List Piece} (h : followedByBlank pieces = false)
    (separated : Separated pieces) : Stops isBlank (textOf pieces) := by
  cases pieces with
  | nil => exact Text.stops_nil _
  | cons piece pieces =>
    cases piece with
    | mark c => exact Text.stops_cons.2 h
    | word w => exact separated.1.stops fun c hc => Text.not_isBlank_of_isWord hc

theorem exists_mark_of_followedByBlank {pieces : List Piece}
    (h : followedByBlank pieces = true) :
    ∃ c more, pieces = .mark c :: more ∧ isBlank c = true := by
  cases pieces with
  | nil => cases h
  | cons piece more =>
    cases piece with
    | mark c => exact ⟨c, more, rfl, h⟩
    | word w => cases h

/-- A negation is written for the word and for all the blanks after it, of which there is one. -/
theorem negationEdit_gap {before : Option Char} (fresh : isWordAt before = false)
    {pieces : List Piece} (followed : followedByBlank pieces = true) :
    ∃ gap, Text.Blank gap ∧ gap ≠ [] ∧ textOf pieces = gap ++ Text.trimStart (textOf pieces) ∧
      negationEdit before ((notWord ++ gap) ++ Text.trimStart (textOf pieces)) =
        some (.upTo ((notWord ++ gap) ++ Text.trimStart (textOf pieces))
          (Text.trimStart (textOf pieces)) ['!']) := by
  obtain ⟨c, more, rfl, blank⟩ := exists_mark_of_followedByBlank followed
  obtain ⟨gap, blank_gap, split, visible⟩ := Text.exists_gap (textOf (.mark c :: more))
  have nonempty : gap ≠ [] := by
    rintro rfl
    rw [List.nil_append] at split
    rw [← split, Text.textOf_mark, Text.stops_cons, blank] at visible
    cases visible
  refine ⟨gap, blank_gap, nonempty, split, ?_⟩
  have found : Text.dropLiteral? "not".toList (notWord ++ c :: textOf more) =
      some (c :: textOf more) := Text.dropLiteral_append _ _
  rw [List.append_assoc, ← split, Text.textOf_mark, negationEdit, found]
  simp only [blank, fresh, Bool.not_false, Bool.and_self, if_true]

theorem editFrom_negation {pieces : List Piece} (separated : Separated pieces) :
    (∀ before, (isWordAt before = false ∨ Stops isWord (textOf pieces)) →
      Text.editFrom negationEdit before 0 (textOf pieces) = textOf (negate false pieces)) ∧
    (∀ before, isWordAt before = false →
      Text.editFrom negationEdit before 0 (Text.trimStart (textOf pieces)) =
        textOf (negate true pieces)) := by
  -- both states at once, since skipping begins at a word and ends at any piece
  induction pieces with
  | nil => exact ⟨fun _ _ => rfl, fun _ _ => rfl⟩
  | cons piece pieces ih =>
    cases piece with
    | mark c =>
      have next : isWordAt (some c) = false := separated.1
      have go : ∀ before, Text.editFrom negationEdit before 0 (textOf (.mark c :: pieces)) =
          textOf (.mark c :: negate false pieces) := by
        intro before
        rw [textOf, List.flatMap_cons]
        refine (Text.editFrom_cons (negationEdit_mark separated.1)).trans ?_
        exact congrArg (c :: ·) ((ih separated.2).1 (some c) (.inl next))
      refine ⟨fun before _ => by simpa [negate] using go before, fun before fresh => ?_⟩
      cases hb : isBlank c with
      | true =>
        have blank : Text.Blank [c] := by simp [hb]
        have skip : Text.trimStart (textOf (.mark c :: pieces)) = Text.trimStart (textOf pieces) :=
          Text.trimStart_append blank (textOf pieces)
        rw [skip, (ih separated.2).2 before fresh]
        simp [negate, hb]
      | false =>
        have visible : Stops isBlank (textOf (.mark c :: pieces)) := Text.stops_cons.2 hb
        rw [Text.trimStart_of_stops visible, go before]
        simp [negate, hb]
    | word w =>
      obtain ⟨hw, stops, separated'⟩ := separated
      have go : ∀ before, isWordAt before = false →
          Text.editFrom negationEdit before 0 (textOf (.word w :: pieces)) =
            textOf (negate false (.word w :: pieces)) := by
        intro before fresh
        rw [Text.textOf_word]
        by_cases negation : w = notWord ∧ followedByBlank pieces = true
        · obtain ⟨rfl, followed⟩ := negation
          obtain ⟨gap, blank, nonempty, split, edit⟩ := negationEdit_gap fresh followed
          have after : isWordAt (notWord ++ gap).getLast? = false := by
            rw [List.getLast?_append]
            exact blank.behind (p := (isWordAt · = false)) (fun _ => Text.not_isWord_of_isBlank)
              (.inl nonempty)
          have tail := (ih separated').2 _ after
          rw [split, ← List.append_assoc, Text.editFrom_upTo (by simp [notWord]) edit, tail]
          simp [negate, followed]
        · have none : negationEdit before (w ++ textOf pieces) = none := by
            refine negationEdit_word hw ?_ stops
            by_cases same : w = notWord
            · refine .inr (not_followedByBlank ?_ separated')
              exact Bool.eq_false_iff.2 fun followed => negation ⟨same, followed⟩
            · exact .inl same
          have no : (decide (w = notWord) && followedByBlank pieces) = false := by
            simpa using negation
          rw [Text.editFrom_word hw (fun _ _ _ inside _ => negationEdit_inside inside) none,
            (ih separated').1 _ (.inr stops), negate, no]
          rfl
      have visible : Stops isBlank (textOf (.word w :: pieces)) :=
        hw.stops fun c hc => Text.not_isBlank_of_isWord hc
      refine ⟨fun before fresh => go before ?_, fun before fresh => ?_⟩
      · exact fresh.resolve_right hw.not_stops
      · rw [Text.trimStart_of_stops visible, go before fresh]
        simp [negate]

/-! ### All passes -/

def keyword (w : Text) : List Piece :=
  if w = "and".toList then [.mark '&', .mark '&']
  else if w = "or".toList then [.mark '|', .mark '|']
  else if w = "True".toList then [.word "true".toList]
  else if w = "False".toList then [.word "false".toList]
  else [.word w]

def rewrite (known : Text → Bool) : (skipping : Bool) → Option Char → List Piece → List Piece
  | _, _, [] => []
  | skipping, _, .mark c :: pieces =>
    if skipping && isBlank c then rewrite known true (some c) pieces
    else .mark c :: rewrite known false (some c) pieces
  | _, before, .word w :: pieces =>
    (if known w && !blocksMark before then [.mark '#'] else []) ++
      if w = notWord && followedByBlank pieces then
        .mark '!' :: rewrite known true w.getLast? pieces
      else keyword w ++ rewrite known false w.getLast? pieces

theorem stops_negate {pieces : List Piece} (separated : Separated pieces)
    (stops : Stops isWord (textOf pieces)) : Stops isWord (textOf (negate false pieces)) := by
  cases pieces with
  | nil => exact stops
  | cons piece pieces =>
    cases piece with
    | mark c => simpa [negate] using separated.1
    | word w => exact absurd stops separated.1.not_stops

theorem separated_negate {pieces : List Piece} (separated : Separated pieces) (skipping : Bool) :
    Separated (negate skipping pieces) := by
  induction pieces generalizing skipping with
  | nil => trivial
  | cons piece pieces ih =>
    cases piece with
    | mark c =>
      unfold negate
      split
      · exact ih separated.2 true
      · exact ⟨separated.1, ih separated.2 false⟩
    | word w =>
      obtain ⟨hw, stops, separated'⟩ := separated
      unfold negate
      split
      · exact ⟨by decide, ih separated' true⟩
      · exact ⟨hw, stops_negate separated' stops, ih separated' false⟩

theorem followedByBlank_replace {word : Text} {written pieces : List Piece}
    (h : ∀ others, followedByBlank (written ++ others) = false) :
    followedByBlank (pieces.flatMap (Piece.replace word written)) = followedByBlank pieces := by
  cases pieces with
  | nil => rfl
  | cons piece pieces =>
    cases piece with
    | mark c => rfl
    | word w =>
      rw [List.flatMap_cons, Piece.replace]
      split
      · exact h _
      · rfl

theorem followedByBlank_markWord (known : Text → Bool) (before : Option Char)
    (pieces : List Piece) :
    followedByBlank (editWords (markWord known) before pieces) = followedByBlank pieces := by
  cases pieces with
  | nil => rfl
  | cons piece pieces =>
    cases piece with
    | mark c => rfl
    | word w =>
      rw [editWords, markWord]
      split <;> rfl

def operators (pieces : List Piece) : List Piece :=
  (pieces.flatMap (Piece.replace "and".toList ("&&".toList.map .mark))).flatMap
    (Piece.replace "or".toList ("||".toList.map .mark))

def truthValues (pieces : List Piece) : List Piece :=
  (pieces.flatMap (Piece.replace "True".toList [.word "true".toList])).flatMap
    (Piece.replace "False".toList [.word "false".toList])

/-- One word is replaced after another. -/
theorem replaceWords_textOf {first second : Text} {written written' pieces : List Piece}
    (run : IsRun isWord first) (run' : IsRun isWord second) (whole : Separated written)
    (whole' : Separated written') (separated : Separated pieces) :
    Separated ((pieces.flatMap (Piece.replace first written)).flatMap
        (Piece.replace second written')) ∧
      Text.replaceWord second (textOf written')
          (Text.replaceWord first (textOf written) (textOf pieces)) =
        textOf ((pieces.flatMap (Piece.replace first written)).flatMap
          (Piece.replace second written')) := by
  have separated' : Separated (pieces.flatMap (Piece.replace first written)) :=
    Text.separated_replace whole separated
  refine ⟨Text.separated_replace whole' separated', ?_⟩
  rw [Text.replaceWord_textOf run written separated]
  exact Text.replaceWord_textOf run' written' separated'

theorem operators_textOf {pieces : List Piece} (separated : Separated pieces) :
    Separated (operators pieces) ∧
      Text.replaceWord "or".toList "||".toList (Text.replaceWord "and".toList "&&".toList
        (textOf pieces)) = textOf (operators pieces) :=
  replaceWords_textOf ⟨by decide, by decide⟩ ⟨by decide, by decide⟩
    (Text.separated_marks (by decide)) (Text.separated_marks (by decide)) separated

theorem truthValues_textOf {pieces : List Piece} (separated : Separated pieces) :
    Separated (truthValues pieces) ∧
      Text.replaceWord "False".toList "false".toList (Text.replaceWord "True".toList "true".toList
        (textOf pieces)) = textOf (truthValues pieces) :=
  replaceWords_textOf ⟨by decide, by decide⟩ ⟨by decide, by decide⟩
    ⟨⟨by decide, by decide⟩, Text.stops_nil _, trivial⟩
    ⟨⟨by decide, by decide⟩, Text.stops_nil _, trivial⟩ separated

theorem replaceOperators_textOf {pieces : List Piece} (separated : Separated pieces) :
    replaceOperators (textOf pieces) = textOf (truthValues (negate false (operators pieces))) := by
  obtain ⟨separated', joints⟩ := operators_textOf separated
  have negations : Text.editAll negationEdit (textOf (operators pieces)) = _ :=
    (editFrom_negation separated').1 none (.inl rfl)
  rw [replaceOperators, joints, negations]
  exact (truthValues_textOf (separated_negate separated' false)).2

theorem operators_word (w : Text) (pieces : List Piece) :
    operators (.word w :: pieces) =
      (if w = "and".toList then [.mark '&', .mark '&']
        else if w = "or".toList then [.mark '|', .mark '|'] else [.word w]) ++
      operators pieces := by
  unfold operators
  rw [List.flatMap_cons, List.flatMap_append, Piece.replace]
  split
  · rfl
  · rw [List.flatMap_singleton, Piece.replace]
    rfl

theorem truthValues_word (w : Text) (pieces : List Piece) :
    truthValues (.word w :: pieces) =
      (if w = "True".toList then [.word "true".toList]
        else if w = "False".toList then [.word "false".toList] else [.word w]) ++
      truthValues pieces := by
  unfold truthValues
  rw [List.flatMap_cons, List.flatMap_append, Piece.replace]
  split
  · rfl
  · rw [List.flatMap_singleton, Piece.replace]

theorem followedByBlank_operators (pieces : List Piece) :
    followedByBlank (operators pieces) = followedByBlank pieces := by
  rw [operators, followedByBlank_replace fun _ => rfl, followedByBlank_replace fun _ => rfl]

/-- A word after the passes for operators and negations. -/
theorem negate_operators_word (skipping : Bool) (w : Text) (pieces : List Piece) :
    truthValues (negate skipping (operators (.word w :: pieces))) =
      if w = notWord && followedByBlank pieces then
        .mark '!' :: truthValues (negate true (operators pieces))
      else keyword w ++ truthValues (negate false (operators pieces)) := by
  rw [operators_word]
  by_cases conjunction : w = "and".toList
  · subst conjunction
    cases skipping <;> rfl
  by_cases disjunction : w = "or".toList
  · subst disjunction
    cases skipping <;> rfl
  rw [if_neg conjunction, if_neg disjunction, List.singleton_append, negate,
    followedByBlank_operators, keyword, if_neg conjunction, if_neg disjunction]
  split
  · rfl
  · exact truthValues_word w _

theorem rewrite_eq (known : Text → Bool) (skipping : Bool) (before : Option Char)
    (pieces : List Piece) :
    truthValues (negate skipping (operators (editWords (markWord known) before pieces))) =
      rewrite known skipping before pieces := by
  induction pieces generalizing skipping before with
  | nil => rfl
  | cons piece pieces ih =>
    cases piece with
    | mark c =>
      have step : operators (editWords (markWord known) before (.mark c :: pieces)) =
        .mark c :: operators (editWords (markWord known) (some c) pieces) := rfl
      rw [step, negate, rewrite]
      split
      · exact ih true (some c)
      · rw [← ih false (some c)]
        rfl
    | word w =>
      have word := fun skipping =>
        negate_operators_word skipping w (editWords (markWord known) w.getLast? pieces)
      rw [followedByBlank_markWord, ih, ih] at word
      rw [editWords, markWord, rewrite]
      split
      · rw [← word false]
        cases skipping <;> rfl
      · rw [← word skipping]
        rfl

theorem separated_rewrite (known : Text → Bool) (skipping : Bool) (before : Option Char)
    {pieces : List Piece} (separated : Separated pieces) :
    Separated (rewrite known skipping before pieces) := by
  have marked : Separated (editWords (markWord known) before pieces) :=
    Text.separated_editWords separated fun before w hw => separated_markWord known before hw
  rw [← rewrite_eq]
  exact (truthValues_textOf (separated_negate (operators_textOf marked).1 skipping)).1

/-! ### Rules are always found -/

theorem exists_markRoot {root : Text} (plain : Text.backslash ∉ root) (text : Text) :
    ∃ marked, markRoot root text = .ok marked := by
  unfold markRoot
  rw [read_of_plain plain]
  exact ⟨_, rfl⟩

theorem exists_markRoots {roots : List Text} (plain : ∀ root ∈ roots, Text.backslash ∉ root)
    (text : Text) : ∃ marked, markRoots roots text = .ok marked := by
  induction roots generalizing text with
  | nil => exact ⟨text, rfl⟩
  | cons root roots ih =>
    obtain ⟨first, others⟩ := List.forall_mem_cons.1 plain
    obtain ⟨marked, found⟩ := exists_markRoot first text
    obtain ⟨marked', found'⟩ := ih others marked
    refine ⟨marked', ?_⟩
    unfold markRoots at found' ⊢
    rw [List.foldlM_cons, found]
    exact found'

end Normalization

open Normalization in
/-- Every text has a rule if no root holds a backslash, and no identifier does. -/
theorem exists_normalize {vars : List Variable}
    (plain : ∀ root ∈ rootsOf vars, Text.backslash ∉ root) (source : Text) :
    ∃ rule, normalize vars source = .ok rule := by
  unfold normalize
  split
  · exact ⟨[], rfl⟩
  · obtain ⟨marked, found⟩ := exists_markRoots plain source
    have variables_marked : markVariables vars source = .ok marked := found
    exact ⟨_, by rw [variables_marked]; rfl⟩

open Normalization Text in
/-- Normalization in one pass, for roots that are words. -/
theorem normalize_textOf {vars : List Variable} (hr : ∀ root ∈ rootsOf vars, IsRun isWord root)
    {pieces : List Piece} (separated : Separated pieces)
    (visible : Text.blankOnly (textOf pieces) = false) :
    normalize vars (textOf pieces) =
      .ok (textOf (rewrite (rootsOf vars).contains false none pieces)) := by
  have marked := markRoots_textOf hr separated fun _ => false
  rw [editWords_markWord_false] at marked
  have separated' : Separated (editWords (markWord (rootsOf vars).contains) none pieces) :=
    Text.separated_editWords separated fun before w hw => separated_markWord _ before hw
  rw [normalize, if_neg (by simp [visible]), markVariables, marked]
  simp only [Bool.false_or]
  rw [← rewrite_eq, ← replaceOperators_textOf separated']
  rfl

end ProgressRules

import ProgressRules.Proofs.Condition.Authoring
import ProgressRules.Proofs.Normalization.SinglePass

/-! Normalization of written conditions. The rule is the same layout in the rule language,
without the blanks that stood after negations. -/

namespace ProgressRules

open Text (IsRun Stops Blank Piece isWord isBlank textOf Separated)

/-- Negations stand at their operands. -/
def Layout.tight (layout : Layout) : Layout :=
  layout.map fun
    | (.not, _) => (.not, [])
    | item => item

namespace Normalization

/-! ### Pieces that stay -/

/-- No word is reserved, and the known words are blocked. -/
def Inert (known : Text → Bool) : Option Char → List Piece → Prop
  | _, [] => True
  | _, .mark c :: pieces => Inert known (some c) pieces
  | before, .word w :: pieces =>
    w ∉ reservedWords ∧ (known w = true → blocksMark before = true) ∧
      Inert known w.getLast? pieces

variable {known : Text → Bool}

theorem keyword_of_not_reserved {w : Text} (h : w ∉ reservedWords) : keyword w = [.word w] := by
  simp only [reservedWords, List.mem_cons, List.not_mem_nil, or_false, not_or] at h
  obtain ⟨and, or, -, true, false, -⟩ := h
  rw [keyword, if_neg and, if_neg or, if_neg true, if_neg false]

theorem rewrite_word {w : Text} (h : w ∉ reservedWords) (skipping : Bool) (before : Option Char)
    (pieces : List Piece) :
    rewrite known skipping before (.word w :: pieces) =
      markWord known before w ++ rewrite known false w.getLast? pieces := by
  have other : w ≠ notWord := by
    rintro rfl
    exact h (by decide)
  rw [rewrite, keyword_of_not_reserved h, markWord]
  split <;> simp [other]

theorem rewrite_mark {c : Char} (visible : isBlank c = false) (skipping : Bool)
    (before : Option Char) (pieces : List Piece) :
    rewrite known skipping before (.mark c :: pieces) =
      .mark c :: rewrite known false (some c) pieces := by
  simp [rewrite, visible]

theorem rewrite_marks (text : Text) (before : Option Char) (pieces : List Piece) :
    rewrite known false before (text.map .mark ++ pieces) =
      text.map .mark ++ rewrite known false (text.getLast?.or before) pieces := by
  induction text generalizing before with
  | nil => rfl
  | cons c text ih =>
    rw [List.map_cons, List.cons_append, rewrite, Bool.false_and, if_neg Bool.false_ne_true, ih]
    cases text <;> simp [List.getLast?_cons]

theorem rewrite_blanks {gap : Text} (blank : Blank gap) (before : Option Char)
    (pieces : List Piece) :
    rewrite known true before (gap.map .mark ++ pieces) =
      rewrite known true (gap.getLast?.or before) pieces := by
  induction gap generalizing before with
  | nil => rfl
  | cons c gap ih =>
    obtain ⟨hc, blank'⟩ := Text.blank_cons.1 blank
    rw [List.map_cons, List.cons_append, rewrite, hc, Bool.and_self, if_pos rfl, ih blank']
    cases gap <;> simp [List.getLast?_cons]

theorem rewrite_inert {pieces : List Piece} {before : Option Char}
    (h : Inert known before pieces) (others : List Piece) :
    ∃ last, rewrite known false before (pieces ++ others) =
      pieces ++ rewrite known false last others := by
  induction pieces generalizing before with
  | nil => exact ⟨before, rfl⟩
  | cons piece pieces ih =>
    cases piece with
    | mark c =>
      obtain ⟨last, same⟩ : ∃ last, rewrite known false (some c) (pieces ++ others) =
          pieces ++ rewrite known false last others := ih h
      refine ⟨last, ?_⟩
      rw [List.cons_append, rewrite, Bool.false_and, if_neg Bool.false_ne_true, same]
      rfl
    | word w =>
      obtain ⟨free, blocked, more⟩ := h
      obtain ⟨last, same⟩ := ih more
      have unmarked : (known w && !blocksMark before) = false := by
        cases hw : known w with
        | false => rfl
        | true => simp [blocked hw]
      refine ⟨last, ?_⟩
      rw [List.cons_append, rewrite_word free, same, markWord, unmarked]
      rfl

theorem inert_marks (text : Text) (before : Option Char) {pieces : List Piece}
    (h : ∀ before, Inert known before pieces) : Inert known before (text.map .mark ++ pieces) := by
  induction text generalizing before with
  | nil => exact h before
  | cons c text ih => exact ih (some c)

theorem inert_segments {segments : List Segment} (free : ∀ s ∈ segments, IsFree s.name)
    {pieces : List Piece} (h : ∀ before, Inert known before pieces) (before : Option Char) :
    Inert known before (segments.flatMap Segment.pieces ++ pieces) := by
  induction segments generalizing before with
  | nil => exact h before
  | cons s segments ih =>
    obtain ⟨first, others⟩ := List.forall_mem_cons.1 free
    rw [List.flatMap_cons, List.append_assoc]
    cases s with
    | member name => exact ⟨first.not_reserved, fun _ => rfl, ih others _⟩
    | key name => exact ⟨first.not_reserved, fun _ => rfl, ih others _⟩

theorem inert_number {n : Numeral} (h : n.WellFormed)
    (unknown : ∀ w, IsRun Text.isDigit w → known w = false) (before : Option Char) :
    Inert known before n.pieces := by
  have digits : ∀ w, IsRun Text.isDigit w → w ∉ reservedWords ∧ (known w = true → False) := by
    intro w run
    refine ⟨not_reserved_of_isDigit run, ?_⟩
    rw [unknown w run]
    exact Bool.false_ne_true
  obtain ⟨free, unmarked⟩ := digits _ h.whole
  unfold Numeral.pieces
  split
  · exact ⟨free, fun hw => (unmarked hw).elim, trivial⟩
  · rename_i nonempty
    obtain ⟨free', unmarked'⟩ := digits n.fraction ⟨by simpa using nonempty, h.fraction⟩
    exact ⟨free, fun hw => (unmarked hw).elim, free', fun hw => (unmarked' hw).elim, trivial⟩

theorem inert_tailPieces {w : WrittenComparison} (h : w.WellFormed)
    (free : ∀ s ∈ w.reference.segments, IsFree s.name)
    (unknown : ∀ w, IsRun Text.isDigit w → known w = false) (before : Option Char) :
    Inert known before w.tailPieces :=
  inert_segments free (fun before => inert_marks _ before (inert_number h.number unknown)) before

/-! ### Layouts -/

theorem blocksMark_of_isBlank {c : Char} (h : isBlank c = true) : blocksMark (some c) = false := by
  simp only [blocksMark, Option.any_some, Bool.or_eq_false_iff, beq_eq_false_iff_ne]
  refine ⟨⟨⟨?_, ?_⟩, ?_⟩, ?_⟩ <;> rintro rfl <;> exact absurd h (by decide)

theorem not_blocksMark_gap {gap : Text} (blank : Blank gap) {before : Option Char}
    (h : gap ≠ [] ∨ blocksMark before = false) : blocksMark (gap.getLast?.or before) = false :=
  blank.behind (p := (blocksMark · = false)) (fun _ => blocksMark_of_isBlank) h

theorem contains_of_reserved {roots : List Text} (names : ∀ root ∈ roots, IsName root) {w : Text}
    (reserved : w ∈ reservedWords) : roots.contains w = false := by
  refine Bool.eq_false_iff.2 fun inside => ?_
  exact (names w (List.contains_iff_mem.1 inside)).not_reserved reserved

theorem contains_of_digits {roots : List Text} (names : ∀ root ∈ roots, IsName root) (w : Text)
    (digits : IsRun Text.isDigit w) : roots.contains w = false := by
  refine Bool.eq_false_iff.2 fun inside => ?_
  exact (names w (List.contains_iff_mem.1 inside)).not_isRun_isDigit digits

theorem rewrite_comparison {roots : List Text} (names : ∀ root ∈ roots, IsName root)
    {w : WrittenComparison} (h : w.WellFormed) (plain : w.reference.IsPlain roots)
    (skipping : Bool) {before : Option Char} (fresh : blocksMark before = false)
    (others : List Piece) :
    ∃ last, rewrite roots.contains skipping before
        ((Lexeme.comparison w).sourcePieces ++ others) =
      .mark '#' :: (Lexeme.comparison w).sourcePieces ++
        rewrite roots.contains false last others := by
  obtain ⟨last, same⟩ := rewrite_inert
    (inert_tailPieces h plain.segments (contains_of_digits names) w.reference.root.getLast?) others
  have free := (names _ plain.root).not_reserved
  have known : roots.contains w.reference.root = true := List.contains_iff_mem.2 plain.root
  refine ⟨last, ?_⟩
  rw [Lexeme.sourcePieces, List.cons_append, rewrite_word free, markWord, known, fresh, same]
  rfl

theorem rewrite_joint {roots : List Text} (names : ∀ root ∈ roots, IsName root) {x : Lexeme}
    (joint : x.isJoint = true) (skipping : Bool) (before : Option Char) (others : List Piece) :
    ∃ last, rewrite roots.contains skipping before (x.sourcePieces ++ others) =
      x.ruleText.map .mark ++ rewrite roots.contains false last others := by
  cases x with
  | and =>
    have unknown := contains_of_reserved names (w := "and".toList) (by decide)
    refine ⟨some 'd', ?_⟩
    rw [Lexeme.sourcePieces, List.singleton_append, rewrite, unknown]
    rfl
  | or =>
    have unknown := contains_of_reserved names (w := "or".toList) (by decide)
    refine ⟨some 'r', ?_⟩
    rw [Lexeme.sourcePieces, List.singleton_append, rewrite, unknown]
    rfl
  | _ => cases joint

theorem rewrite_negation {roots : List Text} (names : ∀ root ∈ roots, IsName root) {gap : Text}
    (blank : Blank gap) (nonempty : gap ≠ []) (skipping : Bool) (before : Option Char)
    (others : List Piece) :
    ∃ last, blocksMark last = false ∧
      rewrite roots.contains skipping before
          (Lexeme.not.sourcePieces ++ (gap.map .mark ++ others)) =
        .mark '!' :: rewrite roots.contains true last others := by
  have unknown := contains_of_reserved names (w := "not".toList) (by decide)
  have followed : followedByBlank (gap.map .mark ++ others) = true := by
    obtain ⟨c, gap', rfl⟩ := List.exists_cons_of_ne_nil nonempty
    exact blank c List.mem_cons_self
  refine ⟨gap.getLast?.or (some 't'), not_blocksMark_gap blank (.inl nonempty), ?_⟩
  rw [Lexeme.sourcePieces, List.singleton_append, rewrite, unknown, followed,
    ← rewrite_blanks blank]
  rfl

theorem textOf_rewrite {roots : List Text} (names : ∀ root ∈ roots, IsName root) {layout : Layout}
    {due : Bool} (wellFormed : layout.WellFormed) (plain : layout.IsPlain roots)
    (spaced : layout.Spaced) (alternate : Token.Alternate due layout.tokens) (skipping : Bool)
    {before : Option Char} (fresh : due = true → blocksMark before = false) :
    textOf (rewrite roots.contains skipping before layout.sourcePieces) =
      layout.tight.ruleText := by
  -- where an operand is due its root has to be free, which the gap before it makes sure of
  induction layout generalizing due skipping before with
  | nil => rfl
  | cons item layout ih =>
    obtain ⟨x, gap⟩ := item
    obtain ⟨wf_x, blank, wf_layout⟩ := Layout.wellFormed_cons.1 wellFormed
    obtain ⟨plain_x, plain_layout⟩ := List.forall_mem_cons.1 plain
    have more : ∀ due before, Token.Alternate due (Layout.tokens layout) →
        (due = true → gap ≠ [] ∨ blocksMark before = false) →
        textOf (rewrite roots.contains false before
          (gap.map .mark ++ Layout.sourcePieces layout)) =
            gap ++ (Layout.tight layout).ruleText := by
      intro due before alternate fresh
      rw [rewrite_marks, Text.textOf_append, Text.textOf_marks,
        ih wf_layout plain_layout spaced.2 alternate false fun hdue =>
          not_blocksMark_gap blank (fresh hdue)]
    rw [Layout.sourcePieces_cons]
    cases x with
    | comparison w =>
      cases due with
      | false => exact alternate.elim
      | true =>
        obtain ⟨last, same⟩ := rewrite_comparison names wf_x plain_x skipping (fresh rfl)
          (gap.map .mark ++ Layout.sourcePieces layout)
        rw [same, Text.textOf_append, more false last alternate (nomatch ·),
          Text.textOf_mark, Lexeme.textOf_sourcePieces]
        exact (Layout.ruleText_cons (.comparison w) gap (Layout.tight layout)).symm
    | not =>
      cases due with
      | false => exact alternate.elim
      | true =>
        obtain ⟨last, free, same⟩ :=
          rewrite_negation names blank (spaced.1 rfl) skipping before (Layout.sourcePieces layout)
        rw [same, Text.textOf_mark, ih wf_layout plain_layout spaced.2 alternate true fun _ => free]
        exact (Layout.ruleText_cons .not [] (Layout.tight layout)).symm
    | and =>
      cases due with
      | true => exact alternate.elim
      | false =>
        obtain ⟨last, same⟩ := rewrite_joint names (x := .and) rfl skipping before
          (gap.map .mark ++ Layout.sourcePieces layout)
        rw [same, Text.textOf_append, Text.textOf_marks,
          more true last alternate fun _ => .inl (spaced.1 rfl)]
        exact (Layout.ruleText_cons .and gap (Layout.tight layout)).symm
    | or =>
      cases due with
      | true => exact alternate.elim
      | false =>
        obtain ⟨last, same⟩ := rewrite_joint names (x := .or) rfl skipping before
          (gap.map .mark ++ Layout.sourcePieces layout)
        rw [same, Text.textOf_append, Text.textOf_marks,
          more true last alternate fun _ => .inl (spaced.1 rfl)]
        exact (Layout.ruleText_cons .or gap (Layout.tight layout)).symm
    | leftParen =>
      cases due with
      | false => exact alternate.elim
      | true =>
        rw [Lexeme.sourcePieces, List.singleton_append, rewrite_mark (by decide),
          Text.textOf_mark, more true _ alternate fun _ => .inr (by decide)]
        exact (Layout.ruleText_cons .leftParen gap (Layout.tight layout)).symm
    | rightParen =>
      cases due with
      | true => exact alternate.elim
      | false =>
        rw [Lexeme.sourcePieces, List.singleton_append, rewrite_mark (by decide),
          Text.textOf_mark, more false _ alternate (nomatch ·)]
        exact (Layout.ruleText_cons .rightParen gap (Layout.tight layout)).symm

end Normalization

theorem Layout.tight_tokens (layout : Layout) : layout.tight.tokens = layout.tokens := by
  simp only [tight, tokens, List.map_map]
  refine List.map_congr_left fun item _ => ?_
  obtain ⟨x, gap⟩ := item
  cases x <;> rfl

theorem Layout.WellFormed.tight {layout : Layout} (h : layout.WellFormed) :
    layout.tight.WellFormed := by
  intro item member
  obtain ⟨⟨x, gap⟩, inside, rfl⟩ := List.mem_map.1 member
  have := h _ inside
  cases x <;> first | exact this | exact ⟨trivial, Text.blank_nil⟩

open Normalization in
/-- A layout in the authoring language is normalized to the same layout of the rule language. -/
theorem normalize_layout {vars : List Variable} (names : ∀ root ∈ rootsOf vars, IsName root)
    {lead : Text} {layout : Layout} (blank : Blank lead) (wellFormed : layout.WellFormed)
    (plain : layout.IsPlain (rootsOf vars)) (spaced : layout.Spaced)
    (alternate : Token.Alternate true layout.tokens) (nonempty : layout ≠ []) :
    normalize vars (lead ++ layout.sourceText) = .ok (lead ++ layout.tight.ruleText) := by
  have pieces : lead ++ layout.sourceText = textOf (lead.map .mark ++ layout.sourcePieces) := by
    rw [Text.textOf_append, Text.textOf_marks, Layout.textOf_sourcePieces]
  have separated : Separated (lead.map .mark ++ layout.sourcePieces) :=
    blank.separated_append (Layout.separated_sourcePieces wellFormed plain spaced alternate)
  have visible : Text.blankOnly (textOf (lead.map .mark ++ layout.sourcePieces)) = false := by
    rw [← pieces]
    exact Layout.sourceText_not_blankOnly wellFormed nonempty lead
  rw [pieces, normalize_textOf (fun root member => (names root member).run) separated visible,
    rewrite_marks, Text.textOf_append, Text.textOf_marks]
  rw [textOf_rewrite names wellFormed plain spaced alternate false
    fun _ => not_blocksMark_gap blank (.inr rfl)]

end ProgressRules

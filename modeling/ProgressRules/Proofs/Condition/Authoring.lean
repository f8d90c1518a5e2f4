import ProgressRules.Restoration
import ProgressRules.Proofs.Condition.Tokens
import ProgressRules.Proofs.Text.Pieces

/-! Conditions in the authoring language. A condition is written there by a layout whose words
are kept apart by blanks and whose names are not words of the language. -/

namespace ProgressRules

open Text (IsRun Stops Blank Piece isWord isBlank textOf Separated)

/-! ### Names -/

def reservedWords : List Text :=
  ["and".toList, "or".toList, "not".toList, "True".toList, "False".toList, "true".toList,
    "false".toList]

/-- A word that may name a member or a key. -/
structure IsFree (w : Text) : Prop where
  run : IsRun isWord w
  not_reserved : w ∉ reservedWords

/-- A free word that begins with an ASCII letter or an underscore may name a variable. -/
structure IsName (w : Text) : Prop extends IsFree w where
  initial : ∃ c rest, w = c :: rest ∧ Restoration.isAsciiName c = true

theorem not_isDigit_of_isAsciiName {c : Char} (h : Restoration.isAsciiName c = true) :
    Text.isDigit c = false := by
  have ascii : c.toNat < 128 ∧ c.isDigit = false := by
    delta Restoration.isAsciiName Char.isAlpha Char.isUpper Char.isLower at h
    simp only [Bool.or_eq_true, Bool.and_eq_true, decide_eq_true_eq, beq_iff_eq,
      UInt32.le_iff_toNat_le] at h
    simp only [Char.isDigit, Bool.and_eq_false_iff, decide_eq_false_iff_not,
      UInt32.le_iff_toNat_le, Char.toNat]
    rcases h with (h | h) | rfl
    · have : 'A'.val.toNat = 65 ∧ 'Z'.val.toNat = 90 ∧ '9'.val.toNat = 57 := by decide
      omega
    · have : 'a'.val.toNat = 97 ∧ 'z'.val.toNat = 122 ∧ '9'.val.toNat = 57 := by decide
      omega
    · decide
  rw [Text.isDigit, Text.digitValue?, if_pos ascii.1, ascii.2]
  rfl

theorem IsName.not_isRun_isDigit {w : Text} (h : IsName w) : ¬IsRun Text.isDigit w := by
  intro digits
  obtain ⟨c, rest, rfl, initial⟩ := h.initial
  have digit := digits.2 c List.mem_cons_self
  rw [not_isDigit_of_isAsciiName initial] at digit
  cases digit

theorem not_reserved_of_isDigit {w : Text} (digits : IsRun Text.isDigit w) :
    w ∉ reservedWords := by
  intro reserved
  have first : ∀ word ∈ reservedWords, word.head?.any Text.isDigit = false := by decide
  obtain ⟨c, rest, rfl⟩ := List.exists_cons_of_ne_nil digits.1
  have digit := digits.2 c List.mem_cons_self
  have none := first _ reserved
  rw [List.head?_cons, Option.any_some, digit] at none
  cases none

def Segment.name : Segment → Text
  | .member name => name
  | .key name => name

/-- The root is one of the given names, and members and keys are free words. -/
structure Reference.IsPlain (roots : List Text) (r : Reference) : Prop where
  root : r.root ∈ roots
  segments : ∀ s ∈ r.segments, IsFree s.name

structure Reference.IsNamed (r : Reference) : Prop where
  root : IsName r.root
  segments : ∀ s ∈ r.segments, IsFree s.name

theorem Reference.IsPlain.isNamed {roots : List Text} (names : ∀ root ∈ roots, IsName root)
    {r : Reference} (h : r.IsPlain roots) : r.IsNamed :=
  ⟨names _ h.root, h.segments⟩

theorem Reference.IsNamed.wellFormed {r : Reference} (h : r.IsNamed) : r.WellFormed where
  root := h.root.run
  segments s member := by
    have run := (h.segments s member).run
    cases s with
    | member name => exact run
    | key name =>
      refine ⟨run.1, fun c inside => ?_⟩
      simp only [bne_iff_ne]
      rintro rfl
      exact absurd (run.2 _ inside) (by decide)

theorem Reference.IsPlain.not_mem_text {roots : List Text} (names : ∀ root ∈ roots, IsName root)
    {r : Reference} (h : r.IsPlain roots) {s : Char} (hs : s ∈ '!' :: WrittenComparison.foreign) :
    s ∉ r.text := by
  have kinds : ∀ s ∈ '!' :: WrittenComparison.foreign, Text.isWord s = false ∧ s ≠ '.' ∧
      s ≠ '[' ∧ s ≠ ']' ∧ s ≠ Text.apostrophe := by decide
  obtain ⟨mark, point, left, right, quote⟩ := kinds s hs
  have no_word : ∀ w, IsRun Text.isWord w → s ∉ w := by
    intro w run inside
    rw [run.2 s inside] at mark
    cases mark
  intro inside
  rcases List.mem_append.1 inside with root | segments
  · exact no_word _ (names _ h.root).run root
  · obtain ⟨segment, member, inside⟩ := List.mem_flatMap.1 segments
    have free := no_word _ (h.segments segment member).run
    cases segment with
    | member name =>
      rcases List.mem_cons.1 inside with same | inside
      · exact point same
      · exact free inside
    | key name =>
      simp only [Segment.text, List.cons_append, List.mem_cons, List.mem_append,
        List.not_mem_nil, or_false] at inside
      rcases inside with same | same | inside | same | same
      · exact left same
      · exact quote same
      · exact free inside
      · exact quote same
      · exact right same

/-! ### Written conditions -/

namespace Lexeme

def IsPlain (roots : List Text) : Lexeme → Prop
  | .comparison w => w.reference.IsPlain roots
  | _ => True

/-- The operators that stand between operands. -/
def isJoint : Lexeme → Bool
  | .and => true
  | .or => true
  | _ => false

/-- The operators that are words in the authoring language. -/
def isKeyword : Lexeme → Bool
  | .not => true
  | x => x.isJoint

end Lexeme

namespace Layout

def IsPlain (roots : List Text) (layout : Layout) : Prop :=
  ∀ item ∈ layout, item.1.IsPlain roots

def headIs (kind : Lexeme → Bool) : Layout → Bool
  | (x, _) :: _ => kind x
  | [] => false

/-- Blanks stand on both sides of `and` and `or`, and after `not`. -/
def Spaced : Layout → Prop
  | (x, gap) :: layout =>
    ((x.isKeyword || headIs Lexeme.isJoint layout) = true → gap ≠ []) ∧ Spaced layout
  | [] => True

end Layout

/-- The text is a way to write the condition in the authoring language, with names from the
given roots and with any redundant parentheses. -/
def Condition.IsWritten (roots : List Text) (t : Condition) (text : Text) : Prop :=
  ∃ (lead : Text) (layout : Layout), Blank lead ∧ layout.WellFormed ∧ layout.IsPlain roots ∧
    layout.Spaced ∧ IsSentence t layout.tokens ∧ text = lead ++ layout.sourceText

/-! ### Pieces -/

def Segment.pieces : Segment → List Piece
  | .member name => [.mark '.', .word name]
  | .key name =>
    [.mark '[', .mark Text.apostrophe, .word name, .mark Text.apostrophe, .mark ']']

def Numeral.pieces (n : Numeral) : List Piece :=
  if n.fraction.isEmpty then [.word n.whole] else [.word n.whole, .mark '.', .word n.fraction]

def WrittenComparison.tailPieces (w : WrittenComparison) : List Piece :=
  w.reference.segments.flatMap Segment.pieces ++
    ((w.left ++ w.operator.symbol ++ w.right).map .mark ++ w.number.pieces)

namespace Lexeme

def sourcePieces : Lexeme → List Piece
  | .comparison w => .word w.reference.root :: w.tailPieces
  | .and => [.word "and".toList]
  | .or => [.word "or".toList]
  | .not => [.word "not".toList]
  | .leftParen => [.mark '(']
  | .rightParen => [.mark ')']

end Lexeme

def Layout.sourcePieces (layout : Layout) : List Piece :=
  layout.flatMap fun item => item.1.sourcePieces ++ item.2.map .mark

theorem Layout.sourcePieces_cons (x : Lexeme) (gap : Text) (layout : Layout) :
    sourcePieces ((x, gap) :: layout) =
      x.sourcePieces ++ (gap.map .mark ++ layout.sourcePieces) := by
  simp [sourcePieces]

theorem Segment.textOf_pieces (s : Segment) : textOf s.pieces = s.text := by
  cases s <;> simp [pieces, text]

theorem Segment.textOf_flatMap_pieces (segments : List Segment) :
    textOf (segments.flatMap pieces) = segments.flatMap text := by
  induction segments with
  | nil => rfl
  | cons s segments ih => simp [textOf_pieces, ih]

theorem Numeral.textOf_pieces (n : Numeral) : textOf n.pieces = n.text := by
  unfold pieces text
  split <;> simp

theorem WrittenComparison.textOf_pieces (w : WrittenComparison) :
    textOf (.word w.reference.root :: w.tailPieces) = w.text := by
  simp [tailPieces, Segment.textOf_flatMap_pieces, Numeral.textOf_pieces, text, Reference.text]

theorem Lexeme.textOf_sourcePieces (x : Lexeme) : textOf x.sourcePieces = x.sourceText := by
  cases x with
  | comparison w => exact w.textOf_pieces
  | _ => rfl

theorem Layout.textOf_sourcePieces (layout : Layout) :
    textOf layout.sourcePieces = layout.sourceText := by
  induction layout with
  | nil => rfl
  | cons item layout ih =>
    rw [sourcePieces_cons, Text.textOf_append, Text.textOf_append, Lexeme.textOf_sourcePieces,
      Text.textOf_marks, sourceText_cons, ih]

theorem Lexeme.sourceText_eq_cons {x : Lexeme} (h : x.WellFormed) :
    ∃ c rest, x.sourceText = c :: rest ∧ isBlank c = false ∧ c ≠ '=' := by
  cases x with
  | comparison w =>
    obtain ⟨c, root, same⟩ := List.exists_cons_of_ne_nil h.reference.root.1
    have word : isWord c = true := h.reference.root.2 c (by simp [same])
    have split : w.text = c :: (root ++ textOf w.tailPieces) := by
      rw [← w.textOf_pieces, same]
      rfl
    refine ⟨c, _, split, Text.not_isBlank_of_isWord word, ?_⟩
    rintro rfl
    exact absurd word (by decide)
  | and => exact ⟨'a', "nd".toList, rfl, by decide⟩
  | or => exact ⟨'o', "r".toList, rfl, by decide⟩
  | not => exact ⟨'n', "ot".toList, rfl, by decide⟩
  | leftParen => exact ⟨'(', [], rfl, by decide⟩
  | rightParen => exact ⟨')', [], rfl, by decide⟩

theorem Layout.sourceText_not_blankOnly {layout : Layout} (wellFormed : layout.WellFormed)
    (nonempty : layout ≠ []) (lead : Text) :
    Text.blankOnly (lead ++ layout.sourceText) = false := by
  obtain ⟨item, layout, rfl⟩ := List.exists_cons_of_ne_nil nonempty
  obtain ⟨c, rest, same, visible, -⟩ :=
    Lexeme.sourceText_eq_cons (wellFormed item List.mem_cons_self).1
  rw [sourceText_cons, same]
  simp [Text.blankOnly, visible]

/-! ### Words are kept apart -/

theorem Operator.not_isWord_symbol {o : Operator} (h : o.Known) :
    ∀ c ∈ o.symbol, isWord c = false := by
  have signs : ∀ c ∈ ['>', '<', '=', '!'], isWord c = false := by decide
  exact fun c member => signs c (o.mem_of_mem_symbol h c member)

theorem Segment.separated_pieces {s : Segment} (h : IsFree s.name) : Separated s.pieces := by
  cases s with
  | member name => exact ⟨by decide, h.run, Text.stops_nil _, trivial⟩
  | key name =>
    refine ⟨by decide, by decide, h.run, ?_, by decide, by decide, trivial⟩
    exact Text.stops_cons.2 (by decide)

theorem Segment.stops_pieces (segments : List Segment) {pieces : List Piece}
    (stops : Stops isWord (textOf pieces)) :
    Stops isWord (textOf (segments.flatMap Segment.pieces ++ pieces)) := by
  cases segments with
  | nil => exact stops
  | cons s segments => cases s <;> exact Text.stops_cons.2 (by decide)

theorem Segment.separated_flatMap {segments : List Segment} {pieces : List Piece}
    (h : ∀ s ∈ segments, IsFree s.name) (separated : Separated pieces)
    (stops : Stops isWord (textOf pieces)) :
    Separated (segments.flatMap Segment.pieces ++ pieces) := by
  induction segments with
  | nil => exact separated
  | cons s segments ih =>
    obtain ⟨first, others⟩ := List.forall_mem_cons.1 h
    rw [List.flatMap_cons, List.append_assoc]
    exact (separated_pieces first).append (ih others) (stops_pieces segments stops)

theorem Numeral.separated_pieces {n : Numeral} (h : n.WellFormed) : Separated n.pieces := by
  have whole : IsRun isWord n.whole :=
    ⟨h.whole.1, fun c hc => Text.isWord_of_isDigit (h.whole.2 c hc)⟩
  unfold pieces
  split
  · exact ⟨whole, Text.stops_nil _, trivial⟩
  · rename_i nonempty
    refine ⟨whole, Text.stops_cons.2 (by decide), by decide, ⟨by simpa using nonempty, ?_⟩,
      Text.stops_nil _, trivial⟩
    exact fun c hc => Text.isWord_of_isDigit (h.fraction c hc)

theorem Segment.not_reserved_of_mem {segments : List Segment}
    (free : ∀ s ∈ segments, IsFree s.name) {v : Text}
    (inside : .word v ∈ segments.flatMap pieces) : v ∉ reservedWords := by
  obtain ⟨s, member, inside⟩ := List.mem_flatMap.1 inside
  have name : v = s.name := by
    cases s <;> simpa [pieces, Segment.name] using inside
  rw [name]
  exact (free s member).not_reserved

theorem Numeral.not_reserved_of_mem {n : Numeral} (h : n.WellFormed) {v : Text}
    (inside : .word v ∈ n.pieces) : v ∉ reservedWords := by
  refine not_reserved_of_isDigit ?_
  unfold pieces at inside
  split at inside
  · cases List.mem_singleton.1 inside
    exact h.whole
  · rename_i nonempty
    simp only [List.mem_cons, Piece.word.injEq, reduceCtorEq, false_or, List.not_mem_nil,
      or_false] at inside
    rcases inside with rfl | rfl
    · exact h.whole
    · exact ⟨by simpa using nonempty, h.fraction⟩

namespace WrittenComparison

variable {w : WrittenComparison}

theorem WellFormed.not_isWord_middle (h : w.WellFormed) :
    ∀ c ∈ w.left ++ w.operator.symbol ++ w.right, isWord c = false := by
  intro c hc
  simp only [List.mem_append] at hc
  rcases hc with (hc | hc) | hc
  · exact Text.not_isWord_of_isBlank (h.left c hc)
  · exact Operator.not_isWord_symbol h.operator c hc
  · exact Text.not_isWord_of_isBlank (h.right c hc)

theorem WellFormed.stops_middle (h : w.WellFormed) (rest : Text) :
    Stops isWord (w.left ++ w.operator.symbol ++ w.right ++ rest) := by
  obtain ⟨c, more, same, -⟩ := Operator.symbol_eq_cons h.operator
  refine (Text.stops_append (by simp [same])).2 ?_
  intro c hc
  exact h.not_isWord_middle c (List.mem_of_mem_head? hc)

theorem WellFormed.separated_tailPieces (h : w.WellFormed)
    (free : ∀ s ∈ w.reference.segments, IsFree s.name) : Separated w.tailPieces := by
  refine Segment.separated_flatMap free ?_ ?_
  · exact Text.separated_marks_append h.not_isWord_middle (Numeral.separated_pieces h.number)
  · rw [Text.textOf_append, Text.textOf_marks]
    exact h.stops_middle _

theorem WellFormed.stops_tailPieces (h : w.WellFormed) : Stops isWord (textOf w.tailPieces) := by
  refine Segment.stops_pieces _ ?_
  rw [Text.textOf_append, Text.textOf_marks]
  exact h.stops_middle _

theorem WellFormed.not_reserved_of_mem (h : w.WellFormed)
    (free : ∀ s ∈ w.reference.segments, IsFree s.name) {v : Text}
    (inside : .word v ∈ w.tailPieces) : v ∉ reservedWords := by
  rcases List.mem_append.1 inside with inside | inside
  · exact Segment.not_reserved_of_mem free inside
  · exact Numeral.not_reserved_of_mem h.number (by simpa using inside)

end WrittenComparison

theorem Lexeme.separated_sourcePieces {roots : List Text} {x : Lexeme} (h : x.WellFormed)
    (plain : x.IsPlain roots) : Separated x.sourcePieces := by
  cases x with
  | comparison w =>
    exact ⟨h.reference.root, h.stops_tailPieces, h.separated_tailPieces plain.segments⟩
  | and | or | not => exact ⟨⟨by decide, by decide⟩, Text.stops_nil _, trivial⟩
  | leftParen | rightParen => exact ⟨by decide, trivial⟩

namespace Layout

/-- After an operand no word follows at once, nor after an operator that is a word. -/
theorem stops_after {x : Lexeme} {gap : Text} {layout : Layout} (blank : Blank gap)
    (spaced : Spaced ((x, gap) :: layout))
    (done : x.isKeyword = true ∨ Token.Alternate false layout.tokens) :
    Stops isWord (gap ++ layout.sourceText) := by
  by_cases nonempty : gap = []
  · subst nonempty
    cases layout with
    | nil => exact Text.stops_nil _
    | cons next layout =>
      have close : x.isKeyword = false ∧ next.1.isJoint = false := by
        have h := spaced.1
        simpa [headIs] using h
      rw [close.1] at done
      have alternate := done.resolve_left Bool.false_ne_true
      obtain ⟨y, gap⟩ := next
      cases y with
      | rightParen => exact Text.stops_cons.2 (by decide)
      | and | or => cases close.2
      | _ => exact alternate.elim
  · exact blank.stops_of_ne_nil nonempty fun _ => Text.not_isWord_of_isBlank

theorem separated_sourcePieces {roots : List Text} {layout : Layout} {due : Bool}
    (wellFormed : layout.WellFormed) (plain : layout.IsPlain roots) (spaced : layout.Spaced)
    (alternate : Token.Alternate due layout.tokens) : Separated layout.sourcePieces := by
  induction layout generalizing due with
  | nil => trivial
  | cons item layout ih =>
    obtain ⟨x, gap⟩ := item
    obtain ⟨wf_x, blank, wf_layout⟩ := wellFormed_cons.1 wellFormed
    obtain ⟨plain_x, plain_layout⟩ := List.forall_mem_cons.1 plain
    have more : ∀ due, Token.Alternate due (tokens layout) →
        Separated (gap.map .mark ++ sourcePieces layout) := fun due alternate =>
      blank.separated_append (ih wf_layout plain_layout spaced.2 alternate)
    have close : x.isKeyword = true ∨ Token.Alternate false (tokens layout) →
        Stops isWord (textOf (gap.map .mark ++ sourcePieces layout)) := by
      intro done
      rw [Text.textOf_append, Text.textOf_marks, textOf_sourcePieces]
      exact stops_after blank spaced done
    have first := Lexeme.separated_sourcePieces wf_x plain_x
    rw [sourcePieces_cons]
    cases x with
    | comparison w =>
      cases due with
      | true => exact first.append (more _ alternate) (close (.inr alternate))
      | false => exact alternate.elim
    | not =>
      cases due with
      | true => exact first.append (more _ alternate) (close (.inl rfl))
      | false => exact alternate.elim
    | and | or =>
      cases due with
      | true => exact alternate.elim
      | false => exact first.append (more _ alternate) (close (.inl rfl))
    | leftParen =>
      cases due with
      | true => exact ⟨by decide, more _ alternate⟩
      | false => exact alternate.elim
    | rightParen =>
      cases due with
      | true => exact alternate.elim
      | false => exact ⟨by decide, more _ alternate⟩

end Layout

end ProgressRules

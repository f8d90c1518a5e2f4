import ProgressRules.Proofs.Restoration.Percentage
import ProgressRules.Proofs.Restoration.Words

/-! The pass for percentages. In the authoring text of a layout it finds the comparisons of the
progress field, each once, and nothing else. -/

namespace ProgressRules

open Text (IsRun Stops Blank isWord isBlank isWordAt editFrom)

/-! ### Rescaled layouts -/

def Lexeme.rescaled (progressField : Text) : Lexeme → Lexeme
  | .comparison w => .comparison (w.rescaled progressField)
  | x => x

def Layout.rescaled (progressField : Text) (layout : Layout) : Layout :=
  layout.map fun item => (item.1.rescaled progressField, item.2)

namespace Restoration

variable {field : Reference}

/-! ### Where the field is found -/

/-- What is found as a comparison of the field is read as the field. -/
theorem read_of_readProgress (named : field.IsNamed) {text : Text} {found : (Text × Text) × Text}
    (h : readProgress field.text text = some found) :
    ∃ rest, Reference.read text = some (field, rest) := by
  simp only [readProgress, Option.bind_eq_bind, Option.bind_eq_some_iff] at h
  obtain ⟨rest, foundField, ⟨operator, after⟩, foundOperator, -⟩ := h
  obtain ⟨gap, blank, split, -⟩ := Text.exists_gap rest
  obtain ⟨known, split'⟩ := Operator.read_eq_some foundOperator
  refine ⟨rest, ?_⟩
  rw [Text.dropLiteral_eq_some foundField]
  refine Reference.read_append named.wellFormed ?_
  rw [split, split']
  exact Operator.stops_reference blank known after

theorem readProgress_append {w : WrittenComparison} (h : w.WellFormed) {rest : Text}
    (stops : Stops continuesNumber rest) :
    readProgress w.reference.text (w.text ++ rest) =
      some ((w.reference.text ++ (w.left ++ (w.operator.symbol ++ w.right)), w.number.text),
        rest) := by
  have symbolFirst : Stops isBlank (w.operator.symbol ++ (w.right ++ (w.number.text ++ rest))) :=
    Operator.stops_symbol h.operator (by decide) _
  have numberFirst : Stops isBlank (w.number.text ++ rest) :=
    Numeral.stops_text h.number (fun c hc => Text.not_isBlank_of_isDigit hc) rest
  have threshold : readThreshold (w.number.text ++ rest) = some (w.number.text, rest) := by
    rw [readThreshold, Numeral.read_append h.number stops]
  have front : w.text ++ rest = (w.reference.text ++ (w.left ++ (w.operator.symbol ++ w.right))) ++
      (w.number.text ++ rest) := by
    simp [WrittenComparison.text]
  have taken := Text.take_front (w.reference.text ++ (w.left ++ (w.operator.symbol ++ w.right)))
    (w.number.text ++ rest)
  rw [← front] at taken
  have dropped : Text.dropLiteral? w.reference.text (w.text ++ rest) =
      some (w.left ++ (w.operator.symbol ++ (w.right ++ (w.number.text ++ rest)))) := by
    rw [WrittenComparison.text_append, Text.dropLiteral_append]
  unfold readProgress
  simp only [dropped, Text.trimStart_append h.left,
    Text.trimStart_of_stops symbolFirst, Operator.read_append h.operator (h.stops_equals rest),
    Text.trimStart_append h.right, Text.trimStart_of_stops numberFirst, threshold,
    Option.bind_eq_bind, Option.bind_some, taken]
  rfl

/-! ### Where nothing is found -/

theorem percentEdit_blocked {before : Option Char} (blocked : blocksField before = true)
    (text : Text) : percentEdit field.text before text = none := by
  rw [percentEdit, if_pos blocked]

theorem percentEdit_inside (before : Option Char) (c : Char) (rest : Text)
    (inside : isWordAt before = true) (_ : isWord c = true) :
    percentEdit field.text before (c :: rest) = none := by
  refine percentEdit_blocked ?_ _
  cases before with
  | none => cases inside
  | some d =>
    have word : isWord d = true := inside
    simp [blocksField, word]

theorem percentEdit_of_read {before : Option Char} {text : Text} (named : field.IsNamed)
    (other : ∀ rest, Reference.read text ≠ some (field, rest)) :
    percentEdit field.text before text = none := by
  unfold percentEdit
  split
  · rfl
  · cases found : readProgress field.text text with
    | none => rfl
    | some result =>
      obtain ⟨rest, read⟩ := read_of_readProgress named found
      exact absurd read (other rest)

theorem percentEdit_other (named : field.IsNamed) (before : Option Char) (c : Char) (rest : Text)
    (other : isWord c = false ∨ Text.isDigit c = true) :
    percentEdit field.text before (c :: rest) = none := by
  refine percentEdit_of_read named fun after read => ?_
  obtain ⟨-, split⟩ := Reference.read_eq_some read
  obtain ⟨d, root, same, initial⟩ := named.root.initial
  rw [Reference.text, same] at split
  obtain ⟨rfl, -⟩ := List.cons.inj split
  rcases other with mark | digit
  · have word := named.root.run.2 c (by simp [same])
    rw [mark] at word
    cases word
  · rw [not_isDigit_of_isAsciiName initial] at digit
    cases digit

theorem editFrom_percentEdit_marks (named : field.IsNamed) {front : Text}
    (h : ∀ c ∈ front, isWord c = false ∨ Text.isDigit c = true) (before : Option Char)
    (rest : Text) :
    editFrom (percentEdit field.text) before 0 (front ++ rest) =
      front ++ editFrom (percentEdit field.text) (front.getLast?.or before) 0 rest :=
  Text.editFrom_inert_of_initial (percentEdit_other named) h

theorem editFrom_percentEdit_word {w rest : Text} {before : Option Char} (run : IsRun isWord w)
    (none : percentEdit field.text before (w ++ rest) = none) :
    editFrom (percentEdit field.text) before 0 (w ++ rest) =
      w ++ editFrom (percentEdit field.text) w.getLast? 0 rest :=
  Text.editFrom_word run percentEdit_inside none

/-- A name behind a point or an apostrophe. -/
theorem editFrom_percentEdit_name (named : field.IsNamed) {opening name closing : Text}
    (marks : ∀ c ∈ opening ++ closing, isWord c = false)
    (blocked : blocksField opening.getLast? = true) (run : IsRun isWord name)
    (before : Option Char) (rest : Text) :
    ∃ last, editFrom (percentEdit field.text) before 0 (opening ++ (name ++ (closing ++ rest))) =
      opening ++ (name ++ (closing ++ editFrom (percentEdit field.text) last 0 rest)) := by
  obtain ⟨first, second⟩ := List.forall_mem_append.1 marks
  have blocked' : blocksField (opening.getLast?.or before) = true := by
    cases last : opening.getLast? with
    | none => rw [last] at blocked; cases blocked
    | some c => rwa [last] at blocked
  refine ⟨closing.getLast?.or name.getLast?, ?_⟩
  rw [editFrom_percentEdit_marks named fun c hc => .inl (first c hc),
    editFrom_percentEdit_word run (percentEdit_blocked blocked' _),
    editFrom_percentEdit_marks named fun c hc => .inl (second c hc)]

theorem editFrom_percentEdit_segments (named : field.IsNamed) {segments : List Segment}
    (free : ∀ s ∈ segments, IsFree s.name) (before : Option Char) (rest : Text) :
    ∃ last, editFrom (percentEdit field.text) before 0 (segments.flatMap Segment.text ++ rest) =
      segments.flatMap Segment.text ++ editFrom (percentEdit field.text) last 0 rest := by
  induction segments generalizing before with
  | nil => exact ⟨before, rfl⟩
  | cons s segments ih =>
    obtain ⟨first, others⟩ := List.forall_mem_cons.1 free
    have segment : ∃ last, editFrom (percentEdit field.text) before 0
        (s.text ++ (segments.flatMap Segment.text ++ rest)) =
        s.text ++ editFrom (percentEdit field.text) last 0
          (segments.flatMap Segment.text ++ rest) := by
      cases s with
      | member name =>
        have marks : ∀ c ∈ ['.'] ++ [], isWord c = false := by decide
        exact editFrom_percentEdit_name named marks rfl first.run before _
      | key name =>
        have marks : ∀ c ∈ ['[', Text.apostrophe] ++ [Text.apostrophe, ']'],
            isWord c = false := by decide
        obtain ⟨last, same⟩ := editFrom_percentEdit_name named marks rfl first.run before
          (segments.flatMap Segment.text ++ rest)
        exact ⟨last, by simpa [Segment.text, Segment.name] using same⟩
    obtain ⟨middle, same⟩ := segment
    obtain ⟨last, same'⟩ := ih others middle
    refine ⟨last, ?_⟩
    rw [List.flatMap_cons, List.append_assoc, same, same', List.append_assoc]

/-- Another reference is not read as the field. -/
theorem percentEdit_reference (named : field.IsNamed) {r : Reference} (h : r.WellFormed)
    (other : r.text ≠ field.text) (before : Option Char) {rest : Text}
    (stops : Stops continuesReference rest) :
    percentEdit field.text before (r.text ++ rest) = none := by
  refine percentEdit_of_read named fun after read => ?_
  rw [Reference.read_append h stops] at read
  exact other (congrArg Reference.text (Prod.mk.inj (Option.some.inj read)).1)

/-- Nothing is found inside a reference. -/
theorem editFrom_percentEdit_reference (named : field.IsNamed) {r : Reference}
    (run : IsRun isWord r.root) (free : ∀ s ∈ r.segments, IsFree s.name) {before : Option Char}
    {rest : Text} (start : percentEdit field.text before (r.text ++ rest) = none) :
    ∃ last, editFrom (percentEdit field.text) before 0 (r.text ++ rest) =
      r.text ++ editFrom (percentEdit field.text) last 0 rest := by
  obtain ⟨last, same⟩ := editFrom_percentEdit_segments named free r.root.getLast? rest
  have split : ∀ rest, r.text ++ rest = r.root ++ (r.segments.flatMap Segment.text ++ rest) :=
    fun rest => List.append_assoc ..
  rw [split] at start
  refine ⟨last, ?_⟩
  rw [split, editFrom_percentEdit_word run start, same, split]

theorem mark_or_digit_of_mem {n : Numeral} (h : n.WellFormed) :
    ∀ c ∈ n.text, isWord c = false ∨ Text.isDigit c = true := by
  intro c inside
  have number := Numeral.continuesNumber_of_mem h inside
  simp only [continuesNumber, Bool.or_eq_true, beq_iff_eq] at number
  rcases number with digit | rfl
  · exact .inr digit
  · exact .inl (by decide)

theorem editFrom_percentEdit_other (named : field.IsNamed) {w : WrittenComparison}
    (h : w.WellFormed) (free : ∀ s ∈ w.reference.segments, IsFree s.name)
    (other : w.reference.text ≠ field.text) (before : Option Char) (rest : Text) :
    ∃ last, editFrom (percentEdit field.text) before 0 (w.text ++ rest) =
      w.text ++ editFrom (percentEdit field.text) last 0 rest := by
  have marks : ∀ c ∈ w.left ++ w.operator.symbol ++ w.right ++ w.number.text,
      isWord c = false ∨ Text.isDigit c = true := by
    intro c inside
    rcases List.mem_append.1 inside with inside | inside
    · exact .inl (h.not_isWord_middle c inside)
    · exact mark_or_digit_of_mem h.number c inside
  have split : ∀ rest, w.text ++ rest = w.reference.text ++
      (w.left ++ w.operator.symbol ++ w.right ++ w.number.text ++ rest) := by
    intro rest
    simp [WrittenComparison.text]
  have stops : Stops continuesReference
      (w.left ++ w.operator.symbol ++ w.right ++ w.number.text ++ rest) := by
    simp only [List.append_assoc]
    exact Operator.stops_reference h.left h.operator _
  obtain ⟨last, same⟩ := editFrom_percentEdit_reference named h.reference.root free
    (percentEdit_reference named h.reference other before stops)
  refine ⟨(w.left ++ w.operator.symbol ++ w.right ++ w.number.text).getLast?.or last, ?_⟩
  rw [split, same, editFrom_percentEdit_marks named marks, split]

theorem editFrom_percentEdit_field {w : WrittenComparison} (h : w.WellFormed)
    (same : w.reference.text = field.text) {before : Option Char}
    (fresh : blocksField before = false) {rest : Text} (stops : Stops continuesNumber rest) :
    ∃ last, editFrom (percentEdit field.text) before 0 (w.text ++ rest) =
      (w.rescaled field.text).text ++ editFrom (percentEdit field.text) last 0 rest := by
  have written : (w.reference.text ++ (w.left ++ (w.operator.symbol ++ w.right))) ++
      Percent.shown w.number.text = (w.rescaled field.text).text := by
    rw [WrittenComparison.rescaled, if_pos same, ← Numeral.text_rescaled h.number]
    simp [WrittenComparison.text]
  have edit : percentEdit field.text before (w.text ++ rest) =
      some (.upTo (w.text ++ rest) rest (w.rescaled field.text).text) := by
    unfold percentEdit
    rw [fresh, if_neg Bool.false_ne_true, ← written, ← same, readProgress_append h stops]
    rfl
  exact ⟨_, Text.editFrom_upTo (w.text_ne_nil h) edit⟩

theorem editFrom_percentEdit_keyword (named : field.IsNamed) {w : Text} (run : IsRun isWord w)
    (reserved : w ∈ reservedWords) (before : Option Char) {rest : Text}
    (stops : Stops continuesReference rest) :
    editFrom (percentEdit field.text) before 0 (w ++ rest) =
      w ++ editFrom (percentEdit field.text) w.getLast? 0 rest := by
  refine editFrom_percentEdit_word run (percentEdit_of_read named fun after read => ?_)
  have keyword : Reference.read (w ++ rest) = some (⟨w, []⟩, rest) := by
    have found := Reference.read_append (r := ⟨w, []⟩) ⟨run, by simp⟩ stops
    simpa [Reference.text] using found
  rw [keyword] at read
  have root : w = field.root := congrArg Reference.root (Prod.mk.inj (Option.some.inj read)).1
  exact named.root.not_reserved (root ▸ reserved)

/-! ### Layouts -/

theorem blocksField_of_isBlank {c : Char} (h : isBlank c = true) :
    blocksField (some c) = false := by
  simp only [blocksField, Option.any_some, Text.not_isWord_of_isBlank h, Bool.false_or,
    Bool.or_eq_false_iff, beq_eq_false_iff_ne]
  constructor <;> rintro rfl <;> exact absurd h (by decide)

theorem not_blocksField_gap {gap : Text} (blank : Blank gap) {before : Option Char}
    (h : gap ≠ [] ∨ blocksField before = false) : blocksField (gap.getLast?.or before) = false :=
  blank.behind (p := (blocksField · = false)) (fun _ => blocksField_of_isBlank) h

theorem stops_continuesNumber {gap : Text} {layout : Layout} (blank : Blank gap)
    (alternate : Token.Alternate false layout.tokens) :
    Stops continuesNumber (gap ++ layout.sourceText) := by
  refine blank.stops_append (fun c hc => ?_) ?_
  · exact not_continuesNumber_of_not_continuesReference (not_continuesReference_of_isBlank hc)
  · cases layout with
    | nil => exact Text.stops_nil _
    | cons item layout =>
      obtain ⟨x, gap⟩ := item
      cases x with
      | and | or | rightParen => exact Text.stops_cons.2 (by decide)
      | _ => exact alternate.elim

theorem editFrom_percentEdit (named : field.IsNamed) {roots : List Text} {layout : Layout}
    {due : Bool} (wellFormed : layout.WellFormed) (plain : layout.IsPlain roots)
    (spaced : layout.Spaced) (alternate : Token.Alternate due layout.tokens)
    {before : Option Char} (fresh : due = true → blocksField before = false) :
    editFrom (percentEdit field.text) before 0 layout.sourceText =
      (Layout.rescaled field.text layout).sourceText := by
  induction layout generalizing due before with
  | nil => rfl
  | cons item layout ih =>
    obtain ⟨x, gap⟩ := item
    obtain ⟨wf_x, blank, wf_layout⟩ := Layout.wellFormed_cons.1 wellFormed
    obtain ⟨plain_x, plain_layout⟩ := List.forall_mem_cons.1 plain
    have more : ∀ {due last}, Token.Alternate due (Layout.tokens layout) →
        (due = true → gap ≠ [] ∨ blocksField last = false) →
        editFrom (percentEdit field.text) last 0 (gap ++ Layout.sourceText layout) =
          gap ++ (Layout.rescaled field.text layout).sourceText := by
      intro due last alternate fresh
      rw [editFrom_percentEdit_marks named
          fun c hc => .inl (Text.not_isWord_of_isBlank (blank c hc)),
        ih wf_layout plain_layout spaced.2 alternate
          fun hdue => not_blocksField_gap blank (fresh hdue)]
    have keyword : x.isKeyword = true → ∀ {due}, Token.Alternate due (Layout.tokens layout) →
        ∀ {w}, IsRun isWord w → w ∈ reservedWords →
        editFrom (percentEdit field.text) before 0 (w ++ (gap ++ Layout.sourceText layout)) =
          w ++ (gap ++ (Layout.rescaled field.text layout).sourceText) := by
      intro isKeyword due alternate w run reserved
      have nonempty : gap ≠ [] := spaced.1 (by rw [isKeyword, Bool.true_or])
      have ended : Stops continuesReference (gap ++ Layout.sourceText layout) :=
        blank.stops_of_ne_nil nonempty fun _ => not_continuesReference_of_isBlank
      rw [editFrom_percentEdit_keyword named run reserved before ended,
        more alternate fun _ => .inl nonempty]
    have whole : (Layout.rescaled field.text ((x, gap) :: layout)).sourceText =
        (x.rescaled field.text).sourceText ++
          (gap ++ (Layout.rescaled field.text layout).sourceText) :=
      Layout.sourceText_cons _ _ _
    rw [Layout.sourceText_cons, whole]
    cases x with
    | comparison w =>
      cases due with
      | false => exact alternate.elim
      | true =>
        have hit : ∃ last, editFrom (percentEdit field.text) before 0
            (w.text ++ (gap ++ Layout.sourceText layout)) = (w.rescaled field.text).text ++
              editFrom (percentEdit field.text) last 0 (gap ++ Layout.sourceText layout) := by
          by_cases same : w.reference.text = field.text
          · exact editFrom_percentEdit_field wf_x same (fresh rfl)
              (stops_continuesNumber blank alternate)
          · rw [WrittenComparison.rescaled, if_neg same]
            exact editFrom_percentEdit_other named wf_x plain_x.segments same before _
        obtain ⟨last, hit⟩ := hit
        exact hit.trans (congrArg _ (more alternate (nomatch ·)))
    | not =>
      cases due with
      | false => exact alternate.elim
      | true => exact keyword rfl alternate ⟨by decide, by decide⟩ (by decide)
    | and | or =>
      cases due with
      | true => exact alternate.elim
      | false => exact keyword rfl alternate ⟨by decide, by decide⟩ (by decide)
    | leftParen =>
      cases due with
      | false => exact alternate.elim
      | true =>
        have mark : ∀ c ∈ ['('], isWord c = false ∨ Text.isDigit c = true := by decide
        have open_paren := editFrom_percentEdit_marks named mark before
          (gap ++ Layout.sourceText layout)
        exact open_paren.trans (congrArg _ (more alternate fun _ => .inr rfl))
    | rightParen =>
      cases due with
      | true => exact alternate.elim
      | false =>
        have mark : ∀ c ∈ [')'], isWord c = false ∨ Text.isDigit c = true := by decide
        have close_paren := editFrom_percentEdit_marks named mark before
          (gap ++ Layout.sourceText layout)
        exact close_paren.trans (congrArg _ (more alternate (nomatch ·)))

end Restoration

end ProgressRules

import ProgressRules.Proofs.Condition.Authoring
import ProgressRules.Proofs.Text.Splitting

/-! From a rule to the words of the authoring language. Every pass leaves the layout as it is,
except for the lexemes of one kind and the blanks around these. -/

namespace ProgressRules

open Text (IsRun Stops Blank Piece isWord isBlank textOf Separated editFrom)

/-! ### Layouts between the passes -/

namespace Lexeme

def isComparison : Lexeme → Bool
  | .comparison _ => true
  | _ => false

def isConjunction : Lexeme → Bool
  | .and => true
  | _ => false

def isDisjunction : Lexeme → Bool
  | .or => true
  | _ => false

def isNegation : Lexeme → Bool
  | .not => true
  | _ => false

/-- The lexeme in a text where some kinds of lexemes are restored already. -/
def mixedText (restored : Lexeme → Bool) (x : Lexeme) : Text :=
  if restored x then x.sourceText else x.ruleText

def unmarkedText : Lexeme → Text := mixedText isComparison

def conjunctionsText : Lexeme → Text := mixedText fun x => x.isComparison || x.isConjunction

def jointsText : Lexeme → Text :=
  mixedText fun x => (x.isComparison || x.isConjunction) || x.isDisjunction

theorem mixedText_eq_cons (restored : Lexeme → Bool) {x : Lexeme} (h : x.WellFormed) :
    ∃ c rest, x.mixedText restored = c :: rest ∧ isBlank c = false ∧ c ≠ '=' := by
  unfold mixedText
  split
  · exact sourceText_eq_cons h
  · obtain ⟨c, rest, same, initial⟩ := ruleText_eq_cons x
    have kinds : ∀ c ∈ initials, isBlank c = false ∧ c ≠ '=' := by decide
    exact ⟨c, rest, same, kinds c initial⟩

end Lexeme

namespace Layout

/-- One blank stands after the lexemes of one kind and before those of another. -/
def respace (after before : Lexeme → Bool) : Layout → Layout
  | [] => []
  | (x, gap) :: layout =>
    (x, if after x || headIs before layout then [' '] else gap) :: respace after before layout

theorem text_cons (form : Lexeme → Text) (x : Lexeme) (gap : Text) (layout : Layout) :
    text form ((x, gap) :: layout) = form x ++ (gap ++ text form layout) := by
  simp [text]

theorem headIs_respace (kind after before : Lexeme → Bool) (layout : Layout) :
    headIs kind (respace after before layout) = headIs kind layout := by
  cases layout <;> rfl

theorem respace_respace (after before after' before' : Lexeme → Bool) (layout : Layout) :
    respace after' before' (respace after before layout) =
      respace (fun x => after x || after' x) (fun x => before x || before' x) layout := by
  induction layout with
  | nil => rfl
  | cons item layout ih =>
    obtain ⟨x, gap⟩ := item
    have both : headIs (fun x => before x || before' x) layout =
        (headIs before layout || headIs before' layout) := by
      cases layout <;> rfl
    simp only [respace, headIs_respace, ih, both]
    cases after x <;> cases after' x <;> cases headIs before layout <;>
      cases headIs before' layout <;> rfl

theorem tokens_respace (after before : Lexeme → Bool) (layout : Layout) :
    tokens (respace after before layout) = tokens layout := by
  induction layout with
  | nil => rfl
  | cons item layout ih => exact congrArg (item.1.token :: ·) ih

theorem WellFormed.respace {layout : Layout} (h : layout.WellFormed)
    (after before : Lexeme → Bool) : (Layout.respace after before layout).WellFormed := by
  induction layout with
  | nil => exact h
  | cons item layout ih =>
    obtain ⟨x, gap⟩ := item
    obtain ⟨wf_x, blank, wf_layout⟩ := wellFormed_cons.1 h
    refine wellFormed_cons.2 ⟨wf_x, ?_, ih wf_layout⟩
    split
    · unfold Blank
      decide
    · exact blank

theorem IsPlain.respace {roots : List Text} {layout : Layout} (h : layout.IsPlain roots)
    (after before : Lexeme → Bool) : (Layout.respace after before layout).IsPlain roots := by
  induction layout with
  | nil => exact h
  | cons item layout ih =>
    obtain ⟨plain_x, plain_layout⟩ := List.forall_mem_cons.1 h
    exact List.forall_mem_cons.2 ⟨plain_x, ih plain_layout⟩

theorem stops_text {p : Char → Bool} {form : Lexeme → Text} {layout : Layout}
    (h : ∀ item ∈ layout, ∀ rest, Stops p (form item.1 ++ rest)) : Stops p (text form layout) := by
  cases layout with
  | nil => exact Text.stops_nil _
  | cons item layout =>
    rw [text_cons]
    exact h item List.mem_cons_self _

end Layout

namespace Restoration

variable {roots : List Text}

/-! ### Marks -/

theorem dropMark_eq_none (before : Option Char) (c : Char) (rest : Text) (other : c ≠ '#') :
    dropMark before (c :: rest) = none := by
  unfold dropMark
  split <;> simp_all

theorem editFrom_dropMark_inert {front : Text} (outside : '#' ∉ front) (before : Option Char)
    (rest : Text) : editFrom dropMark before 0 (front ++ rest) =
      front ++ editFrom dropMark (front.getLast?.or before) 0 rest :=
  Text.editFrom_inert_of_not_mem dropMark_eq_none outside

theorem editFrom_dropMark_name {name : Text} (h : IsName name) (before : Option Char)
    (rest : Text) : editFrom dropMark before 0 ('#' :: (name ++ rest)) =
      editFrom dropMark (some '#') 0 (name ++ rest) := by
  obtain ⟨c, more, rfl, initial⟩ := h.initial
  have edit : dropMark before ('#' :: (c :: more ++ rest)) = some ⟨1, []⟩ := by
    rw [List.cons_append, dropMark, initial]
    rfl
  rw [editFrom, edit]
  rfl

theorem not_mem_of_isPlain (names : ∀ root ∈ roots, IsName root) {w : WrittenComparison}
    (h : w.WellFormed) (plain : w.reference.IsPlain roots) :
    ∀ s ∈ WrittenComparison.foreign, s ∉ w.text := fun _ hs =>
  h.not_mem_text hs (plain.not_mem_text names (List.mem_cons_of_mem _ hs))

theorem editFrom_dropMark_lexeme (names : ∀ root ∈ roots, IsName root) {x : Lexeme}
    (h : x.WellFormed) (plain : x.IsPlain roots) (before : Option Char) (rest : Text) :
    ∃ last, editFrom dropMark before 0 (x.ruleText ++ rest) =
      x.unmarkedText ++ editFrom dropMark last 0 rest := by
  cases x with
  | comparison w =>
    have split : ∀ rest, w.text ++ rest = w.reference.root ++ (textOf w.tailPieces ++ rest) := by
      intro rest
      rw [← w.textOf_pieces, Text.textOf_word, List.append_assoc]
    have mark : editFrom dropMark before 0 ('#' :: (w.text ++ rest)) =
        editFrom dropMark (some '#') 0 (w.text ++ rest) := by
      rw [split, editFrom_dropMark_name (names _ plain.root)]
    have inert := editFrom_dropMark_inert (not_mem_of_isPlain names h plain '#' (by decide))
      (some '#') rest
    exact ⟨_, mark.trans inert⟩
  | and | or | not | leftParen | rightParen =>
    exact ⟨_, editFrom_dropMark_inert (by decide) before rest⟩

theorem editFrom_dropMark (names : ∀ root ∈ roots, IsName root) {layout : Layout}
    (wellFormed : layout.WellFormed) (plain : layout.IsPlain roots) (before : Option Char) :
    editFrom dropMark before 0 layout.ruleText = Layout.text Lexeme.unmarkedText layout := by
  induction layout generalizing before with
  | nil => rfl
  | cons item layout ih =>
    obtain ⟨x, gap⟩ := item
    obtain ⟨wf_x, blank, wf_layout⟩ := Layout.wellFormed_cons.1 wellFormed
    obtain ⟨plain_x, plain_layout⟩ := List.forall_mem_cons.1 plain
    obtain ⟨last, same⟩ := editFrom_dropMark_lexeme names wf_x plain_x before
      (gap ++ Layout.ruleText layout)
    rw [Layout.ruleText_cons, same, editFrom_dropMark_inert (blank.not_mem (by decide)),
      ih wf_layout plain_layout, Layout.text_cons]

/-! ### Truth values -/

/-- Whatever is due after a token, the others alternate. -/
theorem exists_alternate {x : Token} {tokens : List Token} {due : Bool}
    (alternate : Token.Alternate due (x :: tokens)) : ∃ due, Token.Alternate due tokens := by
  cases due <;> cases x <;> first | exact alternate.elim | exact ⟨_, alternate⟩

def unmarkedPieces : Lexeme → List Piece
  | .comparison w => .word w.reference.root :: w.tailPieces
  | x => x.ruleText.map .mark

def layoutPieces (layout : Layout) : List Piece :=
  layout.flatMap fun item => unmarkedPieces item.1 ++ item.2.map .mark

theorem layoutPieces_cons (x : Lexeme) (gap : Text) (layout : Layout) :
    layoutPieces ((x, gap) :: layout) =
      unmarkedPieces x ++ (gap.map .mark ++ layoutPieces layout) := by
  simp [layoutPieces]

theorem textOf_unmarkedPieces (x : Lexeme) : textOf (unmarkedPieces x) = x.unmarkedText := by
  cases x with
  | comparison w => exact w.textOf_pieces
  | _ => exact Text.textOf_marks _

theorem textOf_layoutPieces (layout : Layout) :
    textOf (layoutPieces layout) = Layout.text Lexeme.unmarkedText layout := by
  induction layout with
  | nil => rfl
  | cons item layout ih =>
    rw [layoutPieces_cons, Text.textOf_append, Text.textOf_append, textOf_unmarkedPieces,
      Text.textOf_marks, Layout.text_cons, ih]

theorem stops_of_alternate {gap : Text} {layout : Layout} (blank : Blank gap)
    (alternate : Token.Alternate false layout.tokens) :
    Stops isWord (gap ++ Layout.text Lexeme.unmarkedText layout) := by
  refine blank.stops_append (fun c hc => Text.not_isWord_of_isBlank hc) ?_
  cases layout with
  | nil => exact Text.stops_nil _
  | cons item layout =>
    obtain ⟨x, gap⟩ := item
    cases x with
    | and | or | rightParen => exact Text.stops_cons.2 (by decide)
    | _ => exact alternate.elim

theorem separated_layoutPieces {layout : Layout} {due : Bool} (wellFormed : layout.WellFormed)
    (plain : layout.IsPlain roots) (alternate : Token.Alternate due layout.tokens) :
    Separated (layoutPieces layout) := by
  induction layout generalizing due with
  | nil => trivial
  | cons item layout ih =>
    obtain ⟨x, gap⟩ := item
    obtain ⟨wf_x, blank, wf_layout⟩ := Layout.wellFormed_cons.1 wellFormed
    obtain ⟨plain_x, plain_layout⟩ := List.forall_mem_cons.1 plain
    obtain ⟨due', alternate'⟩ := exists_alternate alternate
    have more : Separated (gap.map .mark ++ layoutPieces layout) :=
      blank.separated_append (ih wf_layout plain_layout alternate')
    rw [layoutPieces_cons]
    cases x with
    | comparison w =>
      cases due with
      | false => exact alternate.elim
      | true =>
        refine Separated.append ?_ more ?_
        · exact ⟨wf_x.reference.root, wf_x.stops_tailPieces,
            wf_x.separated_tailPieces plain_x.segments⟩
        · rw [Text.textOf_append, Text.textOf_marks, textOf_layoutPieces]
          exact stops_of_alternate blank alternate
    | and | or | not | leftParen | rightParen =>
      exact Text.separated_marks_append (by decide) more

theorem not_reserved_of_mem (names : ∀ root ∈ roots, IsName root) {layout : Layout}
    (wellFormed : layout.WellFormed) (plain : layout.IsPlain roots) {v : Text}
    (inside : .word v ∈ layoutPieces layout) : v ∉ reservedWords := by
  obtain ⟨⟨x, gap⟩, member, inside⟩ := List.mem_flatMap.1 inside
  have wf_x := (wellFormed _ member).1
  have plain_x := plain _ member
  rcases List.mem_append.1 inside with inside | inside
  · cases x with
    | comparison w =>
      rcases List.mem_cons.1 inside with same | inside
      · cases same
        exact (names _ plain_x.root).not_reserved
      · exact wf_x.not_reserved_of_mem plain_x.segments inside
    | and | or | not | leftParen | rightParen => simp [unmarkedPieces] at inside
  · simp at inside

theorem replaceWord_layout (names : ∀ root ∈ roots, IsName root) {word : Text}
    (run : IsRun isWord word) (reserved : word ∈ reservedWords) (written : Text) {lead : Text}
    {layout : Layout} (blank : Blank lead) (wellFormed : layout.WellFormed)
    (plain : layout.IsPlain roots) (alternate : Token.Alternate true layout.tokens) :
    Text.replaceWord word written (lead ++ Layout.text Lexeme.unmarkedText layout) =
      lead ++ Layout.text Lexeme.unmarkedText layout := by
  have pieces : lead ++ Layout.text Lexeme.unmarkedText layout =
      textOf (lead.map .mark ++ layoutPieces layout) := by
    rw [Text.textOf_append, Text.textOf_marks, textOf_layoutPieces]
  have separated : Separated (lead.map .mark ++ layoutPieces layout) :=
    blank.separated_append (separated_layoutPieces wellFormed plain alternate)
  rw [pieces]
  refine Text.replaceWord_of_not_mem run written separated fun inside => ?_
  rcases List.mem_append.1 inside with inside | inside
  · simp at inside
  · exact not_reserved_of_mem names wellFormed plain inside reserved

/-! ### Conjunctions and disjunctions -/

/-- The pass writes the lexemes of one kind as words with blanks around them, and no separator
can begin in another lexeme. -/
structure Rewords (s : Char) (word : Text) (kind : Lexeme → Bool) (form form' : Lexeme → Text)
    (x : Lexeme) : Prop where
  visible : ∀ rest, Stops isBlank (form x ++ rest)
  edited : kind x = true → x.isJoint = true ∧ form x = [s, s] ∧ word = ' ' :: (form' x ++ [' '])
  kept : kind x = false → form' x = form x ∧ s ∉ form x ∧
    ∃ c, (form x).getLast? = some c ∧ isBlank c = false

theorem not_headIs_of_alternate {kind : Lexeme → Bool} {layout : Layout}
    (alternate : Token.Alternate true layout.tokens)
    (joint : ∀ item ∈ layout, kind item.1 = true → item.1.isJoint = true) :
    layout.headIs kind = false := by
  cases layout with
  | nil => rfl
  | cons item layout =>
    obtain ⟨x, gap⟩ := item
    cases same : kind x with
    | false => exact same
    | true =>
      have := joint _ List.mem_cons_self same
      cases x with
      | and | or => exact alternate.elim
      | _ => cases this

theorem alternate_of_joint {x : Lexeme} {tokens : List Token} {due : Bool}
    (joint : x.isJoint = true) (alternate : Token.Alternate due (x.token :: tokens)) :
    Token.Alternate true tokens := by
  cases x with
  | and | or =>
    cases due with
    | true => exact alternate.elim
    | false => exact alternate
  | _ => cases joint

theorem editFrom_operatorWord {symbol word : String} {s : Char} (symbol_eq : symbol.toList = [s, s])
    (visible : isBlank s = false) {kind : Lexeme → Bool} {form form' : Lexeme → Text}
    {layout : Layout} {due : Bool} (wellFormed : layout.WellFormed)
    (alternate : Token.Alternate due layout.tokens)
    (rewords : ∀ item ∈ layout, Rewords s word.toList kind form form' item.1)
    {gap : Text} (blank : Blank gap) (before : Option Char) :
    editFrom (operatorWord symbol word) before 0 (gap ++ Layout.text form layout) =
      (if Layout.headIs kind layout then [' '] else gap) ++
        Layout.text form' (Layout.respace kind kind layout) := by
  have unedited : ∀ {before text}, Text.padded [s, s] text = none →
      operatorWord symbol word before text = none := by
    intro before text none
    rw [operatorWord, symbol_eq, none, Option.map_none]
  -- the gap goes along with the layout after it, because a separator takes it as well
  induction layout generalizing due gap before with
  | nil =>
    have outside : s ∉ gap := blank.not_mem visible
    have inert : editFrom (operatorWord symbol word) before 0 (gap ++ []) =
        gap ++ editFrom (operatorWord symbol word) (gap.getLast?.or before) 0 [] := by
      refine Text.editFrom_inert fun a c b split => unedited ?_
      refine Text.padded_eq_none_of_not_mem (s := s) (by simp) fun inside => outside ?_
      rw [split]
      exact List.mem_append_right _ (by simpa using inside)
    simpa [editFrom, Layout.headIs, Layout.respace, Layout.text] using inert
  | cons item layout ih =>
    obtain ⟨x, after⟩ := item
    obtain ⟨wf_x, blank_after, wf_layout⟩ := Layout.wellFormed_cons.1 wellFormed
    obtain ⟨first, others⟩ := List.forall_mem_cons.1 rewords
    have joint : ∀ item ∈ layout, kind item.1 = true → item.1.isJoint = true :=
      fun item member same => ((others item member).edited same).1
    rw [Layout.text_cons, Layout.respace, Layout.text_cons, Layout.headIs]
    cases same : kind x with
    | true =>
      obtain ⟨joint_x, form_x, word_x⟩ := first.edited same
      have alternate' := alternate_of_joint joint_x alternate
      have found : Text.padded [s, s] (gap ++ ([s, s] ++ (after ++ Layout.text form layout))) =
          some (Layout.text form layout) :=
        Text.padded_append blank blank_after (Text.stops_cons.2 visible)
          (Layout.stops_text fun item member => (others item member).visible)
      have edit : operatorWord symbol word before
          ((gap ++ [s, s] ++ after) ++ Layout.text form layout) =
          some (.upTo ((gap ++ [s, s] ++ after) ++ Layout.text form layout)
            (Layout.text form layout) word.toList) := by
        simp only [List.append_assoc]
        rw [operatorWord, symbol_eq, found, Option.map_some]
      have tail := ih wf_layout alternate' others Text.blank_nil (gap ++ [s, s] ++ after).getLast?
      rw [not_headIs_of_alternate alternate' joint, List.nil_append] at tail
      have whole := Text.editFrom_upTo (by simp) edit
      rw [tail, word_x] at whole
      simpa [form_x] using whole
    | false =>
      obtain ⟨form_x, outside, c, last, visible_last⟩ := first.kept same
      obtain ⟨due', alternate'⟩ := exists_alternate alternate
      have plain : Text.Plain s (gap ++ form x) := by
        refine Text.plain_of_not_mem (c := c) (fun inside => ?_) ?_ visible_last
        · exact (List.mem_append.1 inside).elim (blank.not_mem visible) outside
        · rw [List.getLast?_append, last, Option.some_or]
      have inert : editFrom (operatorWord symbol word) before 0
          ((gap ++ form x) ++ (after ++ Layout.text form layout)) = _ :=
        Text.editFrom_inert fun a c b split => unedited (plain.padded_eq_none split (by simp))
      rw [List.append_assoc] at inert
      rw [inert, ih wf_layout alternate' others blank_after, form_x]
      simp

theorem editAll_operatorWord {symbol word : String} {s : Char} (symbol_eq : symbol.toList = [s, s])
    (visible : isBlank s = false) {kind : Lexeme → Bool} {form form' : Lexeme → Text}
    {layout : Layout} (wellFormed : layout.WellFormed)
    (alternate : Token.Alternate true layout.tokens)
    (rewords : ∀ item ∈ layout, Rewords s word.toList kind form form' item.1)
    {lead : Text} (blank : Blank lead) :
    Text.editAll (operatorWord symbol word) (lead ++ Layout.text form layout) =
      lead ++ Layout.text form' (Layout.respace kind kind layout) := by
  have pass := editFrom_operatorWord symbol_eq visible wellFormed alternate rewords blank none
  rw [not_headIs_of_alternate alternate
    fun item member same => ((rewords item member).edited same).1] at pass
  exact pass

theorem rewords_comparison (names : ∀ root ∈ roots, IsName root) {w : WrittenComparison}
    (h : w.WellFormed) (plain : w.reference.IsPlain roots) {s : Char}
    (foreign : s ∈ WrittenComparison.foreign) (word : Text) {kind restored : Lexeme → Bool}
    (other : kind (.comparison w) = false) (done : restored (.comparison w) = true) :
    Rewords s word kind (Lexeme.mixedText restored)
      (Lexeme.mixedText fun x => restored x || kind x) (.comparison w) where
  visible rest := by
    obtain ⟨c, more, same, visible, -⟩ := Lexeme.mixedText_eq_cons restored (x := .comparison w) h
    rw [same]
    exact Text.stops_cons.2 visible
  edited same := by
    rw [other] at same
    cases same
  kept _ := by
    obtain ⟨c, last, digit⟩ := WrittenComparison.getLast_text h
    simp only [Lexeme.mixedText, done, Bool.true_or, if_true]
    exact ⟨trivial, not_mem_of_isPlain names h plain s foreign, c, last,
      Text.not_isBlank_of_isDigit digit⟩

theorem rewords_conjunction (names : ∀ root ∈ roots, IsName root) {x : Lexeme}
    (h : x.WellFormed) (plain : x.IsPlain roots) :
    Rewords '&' " and ".toList Lexeme.isConjunction Lexeme.unmarkedText
      Lexeme.conjunctionsText x := by
  cases x with
  | comparison w => exact rewords_comparison names h plain (by decide) _ rfl rfl
  | and => exact ⟨fun rest => Text.stops_cons.2 (by decide), fun _ => ⟨rfl, rfl, rfl⟩, nofun⟩
  | or | not | leftParen | rightParen =>
    exact ⟨fun rest => Text.stops_cons.2 (by decide), nofun,
      fun _ => ⟨rfl, by decide, _, rfl, by decide⟩⟩

theorem rewords_disjunction (names : ∀ root ∈ roots, IsName root) {x : Lexeme}
    (h : x.WellFormed) (plain : x.IsPlain roots) :
    Rewords '|' " or ".toList Lexeme.isDisjunction Lexeme.conjunctionsText
      Lexeme.jointsText x := by
  cases x with
  | comparison w => exact rewords_comparison names h plain (by decide) _ rfl rfl
  | or => exact ⟨fun rest => Text.stops_cons.2 (by decide), fun _ => ⟨rfl, rfl, rfl⟩, nofun⟩
  | and | not | leftParen | rightParen =>
    exact ⟨fun rest => Text.stops_cons.2 (by decide), nofun,
      fun _ => ⟨rfl, by decide, _, rfl, by decide⟩⟩

/-! ### Negations -/

theorem negationWord_eq_none (before : Option Char) (c : Char) (rest : Text) (other : c ≠ '!') :
    negationWord before (c :: rest) = none := by
  unfold negationWord
  split <;> simp_all

theorem negationWord_append {gap rest : Text} (blank : Blank gap) (visible : Stops isBlank rest)
    (no_equals : Stops (· == '=') rest) (before : Option Char) :
    negationWord before (('!' :: gap) ++ rest) =
      some (.upTo (('!' :: gap) ++ rest) rest "not ".toList) := by
  have stops : Stops (· == '=') (gap ++ rest) := by
    refine blank.stops_append (fun c hc => ?_) no_equals
    simp only [beq_eq_false_iff_ne]
    rintro rfl
    exact absurd hc (by decide)
  have trimmed : Text.trimStart (gap ++ rest) = rest := by
    rw [Text.trimStart_append blank, Text.trimStart_of_stops visible]
  rw [List.cons_append]
  generalize gap ++ rest = text at stops trimmed ⊢
  unfold negationWord
  split
  · rename_i same
    obtain ⟨-, rfl⟩ := List.cons.inj same
    exact absurd (Text.stops_cons.1 stops) (by decide)
  · rename_i same
    obtain ⟨-, rfl⟩ := List.cons.inj same
    rw [trimmed]
  · rename_i none
    exact absurd rfl (none text)

theorem editFrom_negationWord_inert {front : Text} (outside : '!' ∉ front)
    (before : Option Char) (rest : Text) :
    editFrom negationWord before 0 (front ++ rest) =
      front ++ editFrom negationWord (front.getLast?.or before) 0 rest :=
  Text.editFrom_inert_of_not_mem negationWord_eq_none outside

theorem editFrom_negationWord_symbol {o : Operator} (known : o.Known) (before : Option Char)
    (rest : Text) :
    ∃ last, editFrom negationWord before 0 (o.symbol ++ rest) =
      o.symbol ++ editFrom negationWord last 0 rest := by
  cases o with
  | other name => exact absurd rfl (known name)
  | ne => exact ⟨some '=', rfl⟩
  | ge | le | gt | lt | eq => exact ⟨_, editFrom_negationWord_inert (by decide) before rest⟩

theorem editFrom_negationWord_comparison (names : ∀ root ∈ roots, IsName root)
    {w : WrittenComparison} (h : w.WellFormed) (plain : w.reference.IsPlain roots)
    (before : Option Char) (rest : Text) :
    ∃ last, editFrom negationWord before 0 (w.text ++ rest) =
      w.text ++ editFrom negationWord last 0 rest := by
  have no_number : '!' ∉ w.number.text := by
    intro inside
    exact absurd (Numeral.continuesNumber_of_mem h.number inside) (by decide)
  obtain ⟨last, middle⟩ := editFrom_negationWord_symbol h.operator
    (w.left.getLast?.or (w.reference.text.getLast?.or before)) (w.right ++ (w.number.text ++ rest))
  refine ⟨w.number.text.getLast?.or (w.right.getLast?.or last), ?_⟩
  rw [WrittenComparison.text_append,
    editFrom_negationWord_inert (plain.not_mem_text names List.mem_cons_self),
    editFrom_negationWord_inert (h.left.not_mem (by decide)), middle,
    editFrom_negationWord_inert (h.right.not_mem (by decide)),
    editFrom_negationWord_inert no_number, WrittenComparison.text_append]

theorem editFrom_negationWord_lexeme (names : ∀ root ∈ roots, IsName root) {x : Lexeme}
    (h : x.WellFormed) (plain : x.IsPlain roots) (other : x.isNegation = false)
    (before : Option Char) (rest : Text) :
    ∃ last, editFrom negationWord before 0 (x.jointsText ++ rest) =
      x.sourceText ++ editFrom negationWord last 0 rest := by
  cases x with
  | comparison w => exact editFrom_negationWord_comparison names h plain before rest
  | not => cases other
  | and | or | leftParen | rightParen =>
    exact ⟨_, editFrom_negationWord_inert (by decide) before rest⟩

theorem editFrom_negationWord (names : ∀ root ∈ roots, IsName root) {layout : Layout}
    (wellFormed : layout.WellFormed) (plain : layout.IsPlain roots) (before : Option Char) :
    editFrom negationWord before 0 (Layout.text Lexeme.jointsText layout) =
      (Layout.respace Lexeme.isNegation (fun _ => false) layout).sourceText := by
  induction layout generalizing before with
  | nil => rfl
  | cons item layout ih =>
    obtain ⟨x, gap⟩ := item
    obtain ⟨wf_x, blank, wf_layout⟩ := Layout.wellFormed_cons.1 wellFormed
    obtain ⟨plain_x, plain_layout⟩ := List.forall_mem_cons.1 plain
    have none_before : Layout.headIs (fun _ => false) layout = false := by cases layout <;> rfl
    rw [Layout.text_cons, Layout.respace, Layout.sourceText_cons, none_before, Bool.or_false]
    cases other : x.isNegation with
    | false =>
      obtain ⟨last, same⟩ := editFrom_negationWord_lexeme names wf_x plain_x other before
        (gap ++ Layout.text Lexeme.jointsText layout)
      rw [same, editFrom_negationWord_inert (blank.not_mem (by decide)), ih wf_layout plain_layout]
      rfl
    | true =>
      have visible : Stops isBlank (Layout.text Lexeme.jointsText layout) := by
        refine Layout.stops_text fun item member rest => ?_
        obtain ⟨c, more, same, visible, -⟩ := Lexeme.mixedText_eq_cons _ (wf_layout item member).1
        rw [Lexeme.jointsText, same]
        exact Text.stops_cons.2 visible
      have no_equals : Stops (· == '=') (Layout.text Lexeme.jointsText layout) := by
        refine Layout.stops_text fun item member rest => ?_
        obtain ⟨c, more, same, -, other⟩ := Lexeme.mixedText_eq_cons _ (wf_layout item member).1
        rw [Lexeme.jointsText, same]
        exact Text.stops_cons.2 (by simpa using other)
      have whole :=
        Text.editFrom_upTo (by simp) (negationWord_append blank visible no_equals before)
      cases x with
      | not =>
        rw [ih wf_layout plain_layout] at whole
        exact whole
      | _ => cases other

end Restoration

/-! ### All words -/

namespace Layout

/-- One blank stands around every `and` and `or`, and after every `not`. -/
def spread (layout : Layout) : Layout := respace Lexeme.isKeyword Lexeme.isJoint layout

theorem spread_eq (layout : Layout) :
    respace Lexeme.isNegation (fun _ => false)
        (respace Lexeme.isDisjunction Lexeme.isDisjunction
          (respace Lexeme.isConjunction Lexeme.isConjunction layout)) = spread layout := by
  rw [respace_respace, respace_respace, spread]
  congr 1 <;> funext x <;> cases x <;> rfl

theorem spread_spread (layout : Layout) : spread (spread layout) = spread layout := by
  unfold spread
  rw [respace_respace]
  congr 1 <;> funext x <;> exact Bool.or_self _

theorem WellFormed.spread {layout : Layout} (h : layout.WellFormed) :
    (Layout.spread layout).WellFormed :=
  h.respace _ _

theorem IsPlain.spread {roots : List Text} {layout : Layout} (h : layout.IsPlain roots) :
    (Layout.spread layout).IsPlain roots :=
  h.respace _ _

theorem spaced_spread (layout : Layout) : Spaced (spread layout) := by
  induction layout with
  | nil => trivial
  | cons item layout ih =>
    obtain ⟨x, gap⟩ := item
    refine ⟨fun needed => ?_, ih⟩
    rw [headIs_respace] at needed
    rw [needed, if_pos rfl]
    exact List.cons_ne_nil _ _

end Layout

open Restoration in
/-- The passes before the percentages write the layout in the authoring language. -/
theorem words_layout {roots : List Text} (names : ∀ root ∈ roots, IsName root) {lead : Text}
    {layout : Layout} (blank : Blank lead) (wellFormed : layout.WellFormed)
    (plain : layout.IsPlain roots) (alternate : Token.Alternate true layout.tokens) :
    (Text.editAll negationWord <|
      Text.editAll (operatorWord "||" " or ") <|
      Text.editAll (operatorWord "&&" " and ") <|
      Text.replaceWord "false".toList "False".toList <|
      Text.replaceWord "true".toList "True".toList <|
      Text.editAll dropMark (lead ++ layout.ruleText)) = lead ++ layout.spread.sourceText := by
  have marks : Text.editAll dropMark (lead ++ layout.ruleText) =
      lead ++ Layout.text Lexeme.unmarkedText layout := by
    rw [Text.editAll, editFrom_dropMark_inert (blank.not_mem (by decide)),
      editFrom_dropMark names wellFormed plain]
  have wellFormed' := wellFormed.respace Lexeme.isConjunction Lexeme.isConjunction
  have plain' := plain.respace Lexeme.isConjunction Lexeme.isConjunction
  have alternate' : Token.Alternate true
      (Layout.respace Lexeme.isConjunction Lexeme.isConjunction layout).tokens := by
    rwa [Layout.tokens_respace]
  have two_ampersands : "&&".toList = ['&', '&'] := rfl
  have two_bars : "||".toList = ['|', '|'] := rfl
  have conjunctions := editAll_operatorWord two_ampersands (by decide) wellFormed alternate
    (fun item member => rewords_conjunction names (wellFormed item member).1 (plain item member))
    blank
  have disjunctions := editAll_operatorWord two_bars (by decide) wellFormed' alternate'
    (fun item member => rewords_disjunction names (wellFormed' item member).1 (plain' item member))
    blank
  rw [marks, replaceWord_layout names ⟨by decide, by decide⟩ (by decide) _ blank wellFormed plain
    alternate, replaceWord_layout names ⟨by decide, by decide⟩ (by decide) _ blank wellFormed plain
    alternate, conjunctions, disjunctions, Text.editAll,
    editFrom_negationWord_inert (blank.not_mem (by decide)),
    editFrom_negationWord names (wellFormed'.respace _ _) (plain'.respace _ _), Layout.spread_eq]

end ProgressRules

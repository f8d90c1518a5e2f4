import ProgressRules.Condition.Token
import ProgressRules.Proofs.Comparison.Reading

/-! Layouts, which are sequences of lexemes with the blanks between them. A layout is written
as a rule or in the authoring language. A rule has tokens exactly if it is a layout, and these
are the tokens of its lexemes. -/

namespace ProgressRules

open Text (IsRun Stops Blank Ends)

inductive Lexeme where
  | comparison (written : WrittenComparison)
  | and
  | or
  | not
  | leftParen
  | rightParen

namespace Lexeme

def WellFormed : Lexeme → Prop
  | .comparison w => w.WellFormed
  | _ => True

def token : Lexeme → Token
  | .comparison w => .comparison w.comparison w.markedText
  | .and => .and
  | .or => .or
  | .not => .not
  | .leftParen => .leftParen
  | .rightParen => .rightParen

def ruleText (x : Lexeme) : Text := x.token.text

/-- In the authoring language references carry no mark and the operators are words. -/
def sourceText : Lexeme → Text
  | .comparison w => w.text
  | .and => "and".toList
  | .or => "or".toList
  | .not => "not".toList
  | x => x.ruleText

end Lexeme

abbrev Layout := List (Lexeme × Text)

namespace Layout

def WellFormed (layout : Layout) : Prop := ∀ item ∈ layout, item.1.WellFormed ∧ Blank item.2

def text (form : Lexeme → Text) (layout : Layout) : Text :=
  layout.flatMap fun item => form item.1 ++ item.2

def ruleText (layout : Layout) : Text := layout.text Lexeme.ruleText

def sourceText (layout : Layout) : Text := layout.text Lexeme.sourceText

def tokens (layout : Layout) : List Token := layout.map fun item => item.1.token

theorem wellFormed_cons {x : Lexeme} {gap : Text} {layout : Layout} :
    WellFormed ((x, gap) :: layout) ↔ x.WellFormed ∧ Blank gap ∧ layout.WellFormed := by
  simp [WellFormed, and_assoc]

theorem ruleText_cons (x : Lexeme) (gap : Text) (layout : Layout) :
    ruleText ((x, gap) :: layout) = x.ruleText ++ (gap ++ layout.ruleText) := by
  simp [ruleText, text]

theorem sourceText_cons (x : Lexeme) (gap : Text) (layout : Layout) :
    sourceText ((x, gap) :: layout) = x.sourceText ++ (gap ++ layout.sourceText) := by
  simp [sourceText, text]

end Layout

theorem Token.read_not {rest : Text} (alone : Stops (· == '=') rest) :
    Token.read ('!' :: rest) = some (.not, rest) := by
  have noEquals : ∀ more, rest ≠ '=' :: more := by
    rintro more rfl
    exact absurd (Text.stops_cons.1 alone) (by decide)
  have symbol : Token.readSymbol ('!' :: rest) = some (.not, rest) := by
    unfold Token.readSymbol
    split <;> simp_all
  have noComparison : Comparison.readMarked ('!' :: rest) = none :=
    Comparison.readMarked_eq_none (Text.stops_cons.2 (by decide))
  simp [Token.read, Token.readComparison, noComparison, symbol]

namespace Lexeme

def initials : List Char := ['#', '&', '|', '!', '(', ')']

theorem ruleText_eq_cons (x : Lexeme) : ∃ c rest, x.ruleText = c :: rest ∧ c ∈ initials := by
  cases x with
  | comparison w => exact ⟨'#', w.text, rfl, by decide⟩
  | and => exact ⟨'&', ['&'], rfl, by decide⟩
  | or => exact ⟨'|', ['|'], rfl, by decide⟩
  | not => exact ⟨'!', [], rfl, by decide⟩
  | leftParen => exact ⟨'(', [], rfl, by decide⟩
  | rightParen => exact ⟨')', [], rfl, by decide⟩

theorem stops_ruleText {p : Char → Bool} (disjoint : ∀ c ∈ initials, p c = false) (x : Lexeme)
    (rest : Text) : Stops p (x.ruleText ++ rest) := by
  obtain ⟨c, more, same, hc⟩ := ruleText_eq_cons x
  rw [same]
  exact Text.stops_cons.2 (disjoint c hc)

theorem ends_ruleText {x : Lexeme} (h : x.WellFormed) :
    ∃ c, x.ruleText.getLast? = some c ∧ Text.isBlank c = false := by
  cases x with
  | comparison w =>
    obtain ⟨c, hc, digit⟩ := WrittenComparison.getLast_markedText h
    exact ⟨c, hc, Text.not_isBlank_of_isDigit digit⟩
  | and => exact ⟨'&', rfl, by decide⟩
  | or => exact ⟨'|', rfl, by decide⟩
  | not => exact ⟨'!', rfl, by decide⟩
  | leftParen => exact ⟨'(', rfl, by decide⟩
  | rightParen => exact ⟨')', rfl, by decide⟩

def continuesToken (c : Char) : Bool := continuesNumber c || c == '='

theorem stops_number {rest : Text} (stops : Stops continuesToken rest) :
    Stops continuesNumber rest :=
  stops.mono fun _ hc => (Bool.or_eq_false_iff.1 hc).1

theorem stops_equals {rest : Text} (stops : Stops continuesToken rest) : Stops (· == '=') rest :=
  stops.mono fun _ hc => (Bool.or_eq_false_iff.1 hc).2

theorem read_append {x : Lexeme} {rest : Text} (h : x.WellFormed)
    (stops : Stops continuesToken rest) :
    Token.read (x.ruleText ++ rest) = some (x.token, rest) := by
  cases x with
  | comparison w =>
    have found := Comparison.readMarked_append h (stops_number stops)
    simp only [Token.read, Token.readComparison, ruleText, token, Token.text, found,
      Option.map_some, Option.some_or, Text.take_front]
  | not => exact Token.read_not (stops_equals stops)
  | and => rfl
  | or => rfl
  | leftParen => rfl
  | rightParen => rfl

theorem read_eq_some {text rest : Text} {token : Token} (h : Token.read text = some (token, rest)) :
    ∃ x : Lexeme, x.WellFormed ∧ x.token = token ∧ text = x.ruleText ++ rest := by
  rcases Option.or_eq_some_iff.1 h with h | ⟨-, h⟩
  · simp only [Token.readComparison, Option.map_eq_some_iff] at h
    obtain ⟨⟨c, rest'⟩, found, result⟩ := h
    cases result
    obtain ⟨w, wellFormed, rfl, rfl⟩ := Comparison.readMarked_eq_some found
    refine ⟨.comparison w, wellFormed, ?_, rfl⟩
    simp only [token, Text.take_front]
  · unfold Token.readSymbol at h
    split at h <;> cases h
    · exact ⟨.and, trivial, rfl, rfl⟩
    · exact ⟨.or, trivial, rfl, rfl⟩
    · exact ⟨.not, trivial, rfl, rfl⟩
    · exact ⟨.leftParen, trivial, rfl, rfl⟩
    · exact ⟨.rightParen, trivial, rfl, rfl⟩

theorem ofText?_eq_some {x : Lexeme} (h : x.WellFormed) {c : Comparison} {text : Text}
    (same : x.token = .comparison c text) : Comparison.ofText? text = some c := by
  cases x with
  | comparison w =>
    cases same
    exact Comparison.ofText_eq_some.2
      ⟨w, [], [], h, rfl, Text.blank_nil, Text.blank_nil, by simp⟩
  | _ => cases same

end Lexeme

namespace Layout

theorem stops_ruleText {p : Char → Bool} {gap : Text} {layout : Layout} (blank : Blank gap)
    (no_blank : ∀ c, Text.isBlank c = true → p c = false)
    (no_initial : ∀ c ∈ Lexeme.initials, p c = false) : Stops p (gap ++ layout.ruleText) := by
  refine blank.stops_append no_blank ?_
  cases layout with
  | nil => exact Text.stops_nil _
  | cons item layout =>
    rw [ruleText_cons]
    exact Lexeme.stops_ruleText no_initial item.1 _

theorem ruleText_not_blankOnly {layout : Layout} (nonempty : layout ≠ []) (lead : Text) :
    Text.blankOnly (lead ++ layout.ruleText) = false := by
  obtain ⟨item, layout, rfl⟩ := List.exists_cons_of_ne_nil nonempty
  obtain ⟨c, rest, same, initial⟩ := Lexeme.ruleText_eq_cons item.1
  have visible : ∀ c ∈ Lexeme.initials, Text.isBlank c = false := by decide
  rw [ruleText_cons, same]
  simp [Text.blankOnly, visible c initial]

theorem stops_continuesToken {gap : Text} {layout : Layout} (blank : Blank gap) :
    Stops Lexeme.continuesToken (gap ++ layout.ruleText) := by
  refine stops_ruleText blank (fun c hc => ?_) (by decide)
  have number := not_continuesNumber_of_not_continuesReference
    (not_continuesReference_of_isBlank hc)
  simp only [Lexeme.continuesToken, number, Bool.false_or, beq_eq_false_iff_ne]
  rintro rfl
  exact absurd hc (by decide)

/-- Blanks that end a text do not reach into a lexeme. -/
theorem split_before_trailing {text trailing front rest : Text} (blank : Blank trailing)
    {c : Char} (last : front.getLast? = some c) (visible : Text.isBlank c = false)
    (same : text ++ trailing = front ++ rest) :
    ∃ text', text = front ++ text' ∧ text' ++ trailing = rest := by
  rcases List.append_eq_append_iff.1 same with ⟨more, hfront, htrailing⟩ | ⟨more, htext, hrest⟩
  · cases more with
    | nil => exact ⟨[], by simpa using hfront.symm, by simpa using htrailing⟩
    | cons d more =>
      have inside : c ∈ trailing := by
        have hc : c ∈ d :: more := by
          rw [hfront, List.getLast?_append, List.getLast?_cons, Option.some_or] at last
          cases last
          exact List.mem_of_getLast? (List.getLast?_cons ..)
        rw [htrailing]
        exact List.mem_append_left _ hc
      exact absurd inside (blank.not_mem visible)
  · exact ⟨more, htext, hrest.symm⟩

theorem readAll_layout {layout : Layout} (wellFormed : layout.WellFormed)
    {lead text trailing : Text} (blank_lead : Blank lead) (blank_trailing : Blank trailing)
    (ends : Ends text) (same : text ++ trailing = lead ++ layout.ruleText) (position : Nat) :
    Token.readAll position text = .ok layout.tokens := by
  -- the reader gets the text without its last blanks, which belong to the last gap
  induction layout generalizing lead text position with
  | nil =>
    have empty : text = [] := by
      rcases List.eq_nil_or_concat text with h | ⟨front, c, h⟩
      · exact h
      · have visible := ends c (by simp [h])
        have hc : c ∈ lead := by
          have : c ∈ text ++ trailing := by simp [h]
          simpa [same, ruleText, Layout.text] using this
        exact absurd hc (blank_lead.not_mem visible)
    rw [empty, Token.readAll]
    rfl
  | cons item layout ih =>
    obtain ⟨x, gap⟩ := item
    obtain ⟨wf_x, blank_gap, wf_layout⟩ := wellFormed_cons.1 wellFormed
    obtain ⟨c, hc, visible⟩ := Lexeme.ends_ruleText wf_x
    have last : (lead ++ x.ruleText).getLast? = some c := by
      rw [List.getLast?_append, hc]
      rfl
    rw [ruleText_cons, ← List.append_assoc] at same
    obtain ⟨rest, rfl, same'⟩ := split_before_trailing blank_trailing last visible same
    have nonempty : x.ruleText ≠ [] := by
      intro h
      rw [h] at hc
      cases hc
    have ends_rest : Ends rest := by
      intro d hd
      refine ends d ?_
      rw [List.getLast?_append, Option.mem_def.1 hd]
      rfl
    have stops : Stops Lexeme.continuesToken rest := by
      have h : Stops Lexeme.continuesToken (gap ++ ruleText layout) :=
        stops_continuesToken blank_gap
      rw [← same'] at h
      intro d hd
      refine h d ?_
      rw [List.head?_append, Option.mem_def.1 hd]
      rfl
    have visible_first : Stops Text.isBlank (x.ruleText ++ rest) :=
      Lexeme.stops_ruleText (by decide) x rest
    have found : Token.read (Text.trimStart (lead ++ x.ruleText ++ rest)) =
        some (x.token, rest) := by
      rw [List.append_assoc, Text.trimStart_append blank_lead,
        Text.trimStart_of_stops visible_first]
      exact Lexeme.read_append wf_x stops
    have shorter : rest.length < (lead ++ x.ruleText ++ rest).length := by
      have := List.length_pos_iff.2 nonempty
      simp only [List.length_append]
      omega
    rw [Token.readAll]
    simp only [found, shorter, if_true]
    rw [if_neg (by simp [nonempty]), ih wf_layout blank_gap ends_rest same']
    rfl

theorem exists_of_readAll {position : Nat} {text trailing : Text} {tokens : List Token}
    (blank : Blank trailing) (h : Token.readAll position text = .ok tokens) :
    ∃ (lead : Text) (layout : Layout), Blank lead ∧ layout.WellFormed ∧
      text ++ trailing = lead ++ layout.ruleText ∧ layout.tokens = tokens := by
  induction position, text using Token.readAll.induct generalizing tokens with
  | case1 position text empty =>
    rw [Token.readAll, if_pos empty] at h
    cases h
    obtain rfl := List.isEmpty_iff.1 empty
    refine ⟨trailing, [], blank, ?_, ?_, rfl⟩
    · intro item member
      cases member
    · simp [ruleText, Layout.text]
  | case2 position text nonempty token rest found shorter ih =>
    rw [Token.readAll, if_neg nonempty, found] at h
    simp only [shorter, if_true] at h
    cases more : Token.readAll (position + (text.length - rest.length)) rest with
    | error e =>
      rw [more] at h
      cases h
    | ok others =>
      rw [more] at h
      cases h
      obtain ⟨gap, layout, blank_gap, wf_layout, same, rfl⟩ := ih more
      obtain ⟨x, wf_x, rfl, split⟩ := Lexeme.read_eq_some found
      obtain ⟨lead, blank_lead, split_lead, -⟩ := Text.exists_gap text
      -- the blanks before the next token become the gap after this one
      refine ⟨lead, (x, gap) :: layout, blank_lead,
        wellFormed_cons.2 ⟨wf_x, blank_gap, wf_layout⟩, ?_, rfl⟩
      rw [ruleText_cons, ← same, split_lead, split]
      simp only [List.append_assoc]
  | case3 position text nonempty token rest found notShorter =>
    rw [Token.readAll, if_neg nonempty, found] at h
    simp only [notShorter, if_false] at h
    cases h
  | case4 position text nonempty found =>
    rw [Token.readAll, if_neg nonempty, found] at h
    cases h

theorem tokenize_eq_ok {rule : Text} {tokens : List Token} :
    tokenize rule = .ok tokens ↔ ∃ (lead : Text) (layout : Layout), Blank lead ∧
      layout.WellFormed ∧ rule = lead ++ layout.ruleText ∧ layout.tokens = tokens := by
  obtain ⟨trailing, blank_trailing, split, ends⟩ := Text.exists_trailing_gap rule
  constructor
  · intro h
    obtain ⟨lead, layout, blank, wellFormed, same, rfl⟩ := exists_of_readAll blank_trailing h
    exact ⟨lead, layout, blank, wellFormed, split.trans same, rfl⟩
  · rintro ⟨lead, layout, blank, wellFormed, same, rfl⟩
    exact readAll_layout wellFormed blank blank_trailing ends (split.symm.trans same) 0

end Layout

end ProgressRules

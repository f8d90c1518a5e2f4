import ProgressRules.Proofs.Condition.Tokens
import ProgressRules.Proofs.Decomposition.Flat

/-! The grammar of rules, and conditions printed with the fewest parentheses. A rule is read as a
condition exactly if the grammar derives it, a printed condition is read as itself, and no rule
of the condition has fewer parentheses. -/

namespace ProgressRules

open Text (Blank)

def Comparison.text (c : Comparison) : Text :=
  c.marked ++ ' ' :: (c.operator.symbol ++ ' ' :: c.thresholdText)

namespace Condition

/-- A sentence of the grammar that builds the condition, with any blanks between its tokens. -/
def IsRule (t : Condition) (rule : Text) : Prop :=
  ∃ (lead : Text) (layout : Layout), Blank lead ∧ layout.WellFormed ∧
    rule = lead ++ layout.ruleText ∧ IsSentence t layout.tokens

/-- Where a condition stands: alone, as an operand of `||`, or as an operand of `&&` or `!`. -/
inductive Place where
  | alone
  | alternative
  | factor
deriving DecidableEq

/-- A disjunction stands alone only, and a conjunction is no operand of `&&` or `!`. -/
def Place.encloses : Place → Condition → Bool
  | .alternative, .or _ | .factor, .or _ | .factor, .and _ => true
  | _, _ => false

def enclose (enclosed : Bool) (text : Text) : Text :=
  if enclosed then '(' :: (text ++ [')']) else text

mutual

/-- The condition with parentheses only where its structure needs them. -/
def print (place : Place) : Condition → Text
  | .comparison c => c.text
  | .and children =>
    enclose (place.encloses (.and children))
      (Text.joinWith " && ".toList (printAll .factor children))
  | .or children =>
    enclose (place.encloses (.or children))
      (Text.joinWith " || ".toList (printAll .alternative children))
  | .not child => '!' :: print .factor child

def printAll (place : Place) : List Condition → List Text
  | [] => []
  | child :: children => print place child :: printAll place children

end

mutual

def groups (place : Place) : Condition → Nat
  | .comparison _ => 0
  | .and children => (place.encloses (.and children)).toNat + groupsOfAll .factor children
  | .or children => (place.encloses (.or children)).toNat + groupsOfAll .alternative children
  | .not child => groups .factor child

def groupsOfAll (place : Place) : List Condition → Nat
  | [] => 0
  | child :: children => groups place child + groupsOfAll place children

end

def Place.Derives : Place → Condition → List Token → Prop
  | .alone, t, tokens => IsSentence t tokens
  | .alternative, t, tokens => ∃ ts, t = conjunction ts ∧ AreFactors ts tokens
  | .factor, t, tokens => IsOperand t tokens

/-! ### Printed conditions -/

/-- A layout with blanks behind it whose tokens have a property and a number of parentheses. -/
def Printed (text gap : Text) (groups : Nat) (derives : List Token → Prop) : Prop :=
  ∃ layout : Layout, layout.WellFormed ∧ layout.ruleText = text ++ gap ∧
    layout.tokens.count .leftParen = groups ∧ derives layout.tokens

theorem Printed.mono {text gap : Text} {n : Nat} {p q : List Token → Prop}
    (h : Printed text gap n p) (sub : ∀ tokens, p tokens → q tokens) : Printed text gap n q := by
  obtain ⟨layout, wellFormed, split, count, derived⟩ := h
  exact ⟨layout, wellFormed, split, count, sub _ derived⟩

theorem printed_comparison {c : Comparison} (written : c.IsWritten) {gap : Text}
    (blank : Blank gap) : Printed c.text gap 0 (IsOperand (.comparison c)) := by
  obtain ⟨w, wellFormed, rfl⟩ := written
  let spaced : WrittenComparison := { w with left := [' '], right := [' '] }
  have wf_spaced : spaced.WellFormed :=
    ⟨wellFormed.reference, Text.blank_space, wellFormed.operator, Text.blank_space,
      wellFormed.number⟩
  refine ⟨[(.comparison spaced, gap)], ?_, ?_, rfl, ?_⟩
  · exact Layout.wellFormed_cons.2 ⟨wf_spaced, blank, nofun⟩
  · simp [Layout.ruleText, Layout.text, Lexeme.ruleText, Lexeme.token, Token.text,
      WrittenComparison.markedText, WrittenComparison.text, Comparison.text, Comparison.marked,
      WrittenComparison.comparison, spaced]
  · exact .comparison w.comparison spaced.markedText

theorem Printed.negation {text gap : Text} {n : Nat} {t : Condition}
    (h : Printed text gap n (IsOperand t)) : Printed ('!' :: text) gap n (IsOperand (.not t)) := by
  obtain ⟨layout, wellFormed, split, count, derived⟩ := h
  refine ⟨(.not, []) :: layout, ?_, ?_, ?_, .negation derived⟩
  · exact Layout.wellFormed_cons.2 ⟨trivial, Text.blank_nil, wellFormed⟩
  · rw [Layout.ruleText_cons, split]
    rfl
  · exact (List.count_cons_of_ne (by decide)).trans count

theorem Printed.group {text gap : Text} {n : Nat} {ts : List Condition} (blank : Blank gap)
    (h : Printed text [] n (AreAlternatives ts)) :
    Printed ('(' :: (text ++ [')'])) gap (n + 1) (IsOperand (disjunction ts)) := by
  obtain ⟨layout, wellFormed, split, count, derived⟩ := h
  refine ⟨(.leftParen, []) :: (layout ++ [(.rightParen, gap)]), ?_, ?_, ?_, ?_⟩
  · refine Layout.wellFormed_cons.2 ⟨trivial, Text.blank_nil, ?_⟩
    intro item member
    rcases List.mem_append.1 member with inside | last
    · exact wellFormed item inside
    · obtain rfl := List.mem_singleton.1 last
      exact ⟨trivial, blank⟩
  · have inner : layout.flatMap (fun item => item.1.ruleText ++ item.2) = text := by
      simpa [Layout.ruleText, Layout.text] using split
    simp [Layout.ruleText, Layout.text, inner]
    rfl
  · rw [← count]
    simp [Layout.tokens, Lexeme.token]
  · simpa [Layout.tokens, Lexeme.token] using IsOperand.group derived

theorem Printed.joint {x : Lexeme} (joint : x = .and ∨ x = .or) {first others gap : Text}
    {m n : Nat} {p q r : List Token → Prop} (h : Printed first [' '] m p)
    (more : Printed others gap n q)
    (joined : ∀ a b, p a → q b → r (a ++ x.token :: b)) :
    Printed (first ++ ' ' :: (x.ruleText ++ ' ' :: others)) gap (m + n) r := by
  obtain ⟨layout, wellFormed, split, count, derived⟩ := h
  obtain ⟨layout', wellFormed', split', count', derived'⟩ := more
  have no_paren : x.token ≠ .leftParen := by
    rcases joint with rfl | rfl <;> exact nofun
  have wf_x : x.WellFormed := by
    rcases joint with rfl | rfl <;> trivial
  refine ⟨layout ++ (x, [' ']) :: layout', ?_, ?_, ?_, ?_⟩
  · intro item member
    rcases List.mem_append.1 member with inside | inside
    · exact wellFormed item inside
    · rcases List.mem_cons.1 inside with rfl | inside
      · exact ⟨wf_x, Text.blank_space⟩
      · exact wellFormed' item inside
  · have appended : Layout.ruleText (layout ++ (x, [' ']) :: layout') =
        layout.ruleText ++ Layout.ruleText ((x, [' ']) :: layout') := List.flatMap_append
    rw [appended, Layout.ruleText_cons, split, split']
    simp
  · have appended : Layout.tokens (layout ++ (x, [' ']) :: layout') =
        layout.tokens ++ x.token :: layout'.tokens := List.map_append
    rw [appended, List.count_append, List.count_cons_of_ne no_paren, count, count']
  · have appended : Layout.tokens (layout ++ (x, [' ']) :: layout') =
        layout.tokens ++ x.token :: layout'.tokens := List.map_append
    rw [appended]
    exact joined _ _ derived derived'

theorem Place.derives_of_isOperand {t : Condition} {tokens : List Token} (h : IsOperand t tokens)
    (place : Place) : place.Derives t tokens := by
  cases place with
  | alone => exact ⟨[t], rfl, .one (.one h)⟩
  | alternative => exact ⟨[t], rfl, .one h⟩
  | factor => exact h

theorem printed_conjunction {ts : List Condition} {text : Text} {n : Nat}
    (several : 2 ≤ ts.length)
    (inner : ∀ gap, Blank gap → Printed text gap n (AreFactors ts)) (place : Place) {gap : Text}
    (blank : Blank gap) :
    Printed (enclose (place.encloses (.and ts)) text) gap
      ((place.encloses (.and ts)).toNat + n) (place.Derives (.and ts)) := by
  have same : conjunction ts = .and ts := conjunction_of_several several
  rw [Nat.add_comm]
  cases place with
  | alone =>
    exact (inner gap blank).mono fun tokens h => ⟨[.and ts], rfl, same ▸ .one h⟩
  | alternative =>
    exact (inner gap blank).mono fun tokens h => ⟨ts, same.symm, h⟩
  | factor =>
    have alternatives : Printed text [] n (AreAlternatives [.and ts]) :=
      (inner [] Text.blank_nil).mono fun tokens h => same ▸ .one h
    exact alternatives.group blank

theorem printed_disjunction {ts : List Condition} {text : Text} {n : Nat}
    (several : 2 ≤ ts.length)
    (inner : ∀ gap, Blank gap → Printed text gap n (AreAlternatives ts)) (place : Place)
    {gap : Text} (blank : Blank gap) :
    Printed (enclose (place.encloses (.or ts)) text) gap
      ((place.encloses (.or ts)).toNat + n) (place.Derives (.or ts)) := by
  have same : disjunction ts = .or ts := disjunction_of_several several
  have grouped : Printed ('(' :: (text ++ [')'])) gap (n + 1) (IsOperand (.or ts)) :=
    same ▸ (inner [] Text.blank_nil).group blank
  rw [Nat.add_comm]
  cases place with
  | alone => exact (inner gap blank).mono fun tokens h => ⟨ts, same.symm, h⟩
  | alternative => exact grouped.mono fun tokens h => Place.derives_of_isOperand h .alternative
  | factor => exact grouped

mutual

theorem printed {t : Condition} (regular : t.IsRegular Comparison.IsWritten) (place : Place)
    {gap : Text} (blank : Blank gap) :
    Printed (print place t) gap (groups place t) (place.Derives t) := by
  cases t with
  | comparison c =>
    exact (printed_comparison regular blank).mono fun tokens h => place.derives_of_isOperand h
  | and ts =>
    exact printed_conjunction regular.1 (fun gap blank => printed_factors
      (List.ne_nil_of_length_pos (by have := regular.1; omega)) regular.2 blank) place blank
  | or ts =>
    exact printed_disjunction regular.1 (fun gap blank => printed_alternatives
      (List.ne_nil_of_length_pos (by have := regular.1; omega)) regular.2 blank) place blank
  | not t =>
    have negated := (printed (t := t) regular .factor blank).negation
    exact negated.mono fun tokens h => place.derives_of_isOperand h

theorem printed_factors {ts : List Condition} (nonempty : ts ≠ [])
    (regular : AllRegular Comparison.IsWritten ts) {gap : Text} (blank : Blank gap) :
    Printed (Text.joinWith " && ".toList (printAll .factor ts)) gap (groupsOfAll .factor ts)
      (AreFactors ts) := by
  match ts with
  | [t] =>
    have first := (printed regular.1 .factor blank).mono fun tokens h => AreFactors.one h
    simpa [printAll, Text.joinWith, groupsOfAll] using first
  | t :: u :: us =>
    have first := printed regular.1 .factor Text.blank_space
    have others := printed_factors (List.cons_ne_nil u us) regular.2 blank
    rw [printAll, printAll, Text.joinWith_cons]
    exact first.joint (x := .and) (.inl rfl) others fun a b operand factors =>
      .more operand factors

theorem printed_alternatives {ts : List Condition} (nonempty : ts ≠ [])
    (regular : AllRegular Comparison.IsWritten ts) {gap : Text} (blank : Blank gap) :
    Printed (Text.joinWith " || ".toList (printAll .alternative ts)) gap
      (groupsOfAll .alternative ts) (AreAlternatives ts) := by
  match ts with
  | [t] =>
    have first := (printed regular.1 .alternative blank).mono fun tokens h =>
      show AreAlternatives [t] tokens by
        obtain ⟨us, rfl, factors⟩ := h
        exact .one factors
    simpa [printAll, Text.joinWith, groupsOfAll] using first
  | t :: u :: us =>
    have first := printed regular.1 .alternative Text.blank_space
    have others := printed_alternatives (List.cons_ne_nil u us) regular.2 blank
    rw [printAll, printAll, Text.joinWith_cons]
    refine first.joint (x := .or) (.inr rfl) others fun a b factors alternatives => ?_
    obtain ⟨vs, rfl, factors⟩ := factors
    exact .more factors alternatives

end

/-! ### The fewest parentheses -/

/-- Parentheses around a condition save those that its place would need. -/
theorem groups_le (place : Place) (t : Condition) : groups place t ≤ groups .alone t + 1 := by
  cases t with
  | comparison c => simp [groups]
  | not t => simp [groups]
  | and ts => cases place <;> simp [groups, Place.encloses]; omega
  | or ts => cases place <;> simp [groups, Place.encloses] <;> omega

theorem groups_conjunction_le (ts : List Condition) :
    groups .alternative (conjunction ts) ≤ groupsOfAll .factor ts := by
  match ts with
  | [] => simp [conjunction, groups, Place.encloses]
  | [t] => cases t <;> simp [conjunction, groups, groupsOfAll, Place.encloses]
  | t :: u :: ts => simp [conjunction, groups, Place.encloses]

theorem groups_disjunction_le (ts : List Condition) :
    groups .alone (disjunction ts) ≤ groupsOfAll .alternative ts := by
  match ts with
  | [] => simp [disjunction, groups, Place.encloses]
  | [t] => cases t <;> simp [disjunction, groups, groupsOfAll, Place.encloses]
  | t :: u :: ts => simp [disjunction, groups, Place.encloses]

mutual

theorem IsOperand.groups_le {t : Condition} {tokens : List Token} (h : IsOperand t tokens) :
    groups .factor t ≤ tokens.count .leftParen := by
  cases h with
  | comparison c text => simp [groups]
  | @negation t tokens inner =>
    rw [List.count_cons_of_ne (by decide)]
    exact inner.groups_le
  | @group ts tokens inner =>
    calc groups .factor (disjunction ts) ≤ groups .alone (disjunction ts) + 1 :=
          Condition.groups_le _ _
      _ ≤ tokens.count .leftParen + 1 :=
          Nat.succ_le_succ (Nat.le_trans (groups_disjunction_le ts) inner.groups_le)
      _ = (Token.leftParen :: (tokens ++ [.rightParen])).count .leftParen := by simp
termination_by 3 * tokens.length

theorem AreFactors.groups_le {ts : List Condition} {tokens : List Token}
    (h : AreFactors ts tokens) : groupsOfAll .factor ts ≤ tokens.count .leftParen := by
  cases h with
  | one operand => simpa [groupsOfAll] using operand.groups_le
  | @more t ts tokens others operand more =>
    rw [List.count_append, List.count_cons_of_ne (by decide)]
    exact Nat.add_le_add operand.groups_le more.groups_le
termination_by 3 * tokens.length + 1

theorem AreAlternatives.groups_le {ts : List Condition} {tokens : List Token}
    (h : AreAlternatives ts tokens) : groupsOfAll .alternative ts ≤ tokens.count .leftParen := by
  cases h with
  | @one ts _ factors =>
    exact Nat.le_trans (groups_conjunction_le ts) factors.groups_le
  | @more ts us tokens others factors more =>
    rw [List.count_append, List.count_cons_of_ne (by decide)]
    exact Nat.add_le_add (Nat.le_trans (groups_conjunction_le ts) factors.groups_le)
      more.groups_le
termination_by 3 * tokens.length + 2
decreasing_by all_goals (subst_vars; simp; try omega)

end

theorem IsSentence.groups_le {t : Condition} {tokens : List Token} (h : IsSentence t tokens) :
    groups .alone t ≤ tokens.count .leftParen := by
  obtain ⟨ts, rfl, alternatives⟩ := h
  exact Nat.le_trans (groups_disjunction_le ts) alternatives.groups_le

/-! ### Exactness -/

theorem parse_eq_ok_iff_isRule {rule : Text} {t : Condition} :
    parse rule = .ok t ↔ IsRule t rule := by
  refine parse_eq_ok.trans ?_
  constructor
  · rintro ⟨tokens, read, sentence⟩
    obtain ⟨lead, layout, blank, wellFormed, split, rfl⟩ := Layout.tokenize_eq_ok.1 read
    exact ⟨lead, layout, blank, wellFormed, split, ofTokens_eq_ok.1 sentence⟩
  · rintro ⟨lead, layout, blank, wellFormed, split, sentence⟩
    exact ⟨_, Layout.tokenize_eq_ok.2 ⟨lead, layout, blank, wellFormed, split, rfl⟩,
      ofTokens_eq_ok.2 sentence⟩

theorem IsSentence.unique {t u : Condition} {tokens : List Token} (h : IsSentence t tokens)
    (h' : IsSentence u tokens) : t = u :=
  Except.ok.inj ((ofTokens_eq_ok.2 h).symm.trans (ofTokens_eq_ok.2 h'))

theorem not_parsed {rule : Text} (h : ∀ t, ¬IsRule t rule) :
    ofRule? rule = none ∧ ∃ e, parse rule = .error e := by
  constructor
  · cases found : ofRule? rule with
    | none => rfl
    | some t => exact absurd (ofRule?_iff_layout.1 found) (h t)
  · cases found : parse rule with
    | error e => exact ⟨e, rfl⟩
    | ok t => exact absurd (parse_eq_ok_iff_isRule.1 found) (h t)

/-- The tokens of the printed condition, which no rule of the condition has with fewer
parentheses. -/
theorem exists_tokens_of_print {t : Condition} (regular : t.IsRegular Comparison.IsWritten) :
    ∃ tokens, tokenize (print .alone t) = .ok tokens ∧ IsSentence t tokens ∧
      ∀ rule others, tokenize rule = .ok others → IsSentence t others →
        tokens.count .leftParen ≤ others.count .leftParen := by
  obtain ⟨layout, wellFormed, split, count, sentence⟩ := printed regular .alone Text.blank_nil
  rw [List.append_nil] at split
  refine ⟨layout.tokens, ?_, sentence, fun rule others read other => ?_⟩
  · exact Layout.tokenize_eq_ok.2 ⟨[], layout, Text.blank_nil, wellFormed, split.symm, rfl⟩
  · rw [count]
    exact other.groups_le

/-- The parser accepts exactly the grammar: a rule is read as the one condition whose sentence it
is, any other text is refused, and a condition with at least two operands in every group is read
from its text with the fewest parentheses. -/
theorem parse_exact :
    (∀ rule t, (ofRule? rule = some t ↔ IsRule t rule) ∧ (parse rule = .ok t ↔ IsRule t rule)) ∧
    (∀ tokens t u, IsSentence t tokens → IsSentence u tokens → t = u) ∧
    (∀ rule t u, IsRule t rule → IsRule u rule → t = u) ∧
    (∀ rule, (∀ t, ¬IsRule t rule) →
      ofRule? rule = none ∧ ∃ e : ParseError, parse rule = .error e) ∧
    ∀ t : Condition, t.IsRegular Comparison.IsWritten →
      ofRule? (print .alone t) = some t ∧
      ∃ tokens, tokenize (print .alone t) = .ok tokens ∧
        ∀ rule others, ofRule? rule = some t → tokenize rule = .ok others →
          tokens.count .leftParen ≤ others.count .leftParen := by
  refine ⟨fun rule t => ⟨ofRule?_iff_layout, parse_eq_ok_iff_isRule⟩,
    fun tokens t u => IsSentence.unique, fun rule t u h h' => ?_, fun rule => not_parsed,
    fun t regular => ?_⟩
  · exact Except.ok.inj ((parse_eq_ok_iff_isRule.2 h).symm.trans (parse_eq_ok_iff_isRule.2 h'))
  · obtain ⟨tokens, read, sentence, fewest⟩ := exists_tokens_of_print regular
    refine ⟨ofRule?_eq_some_iff.2 ⟨tokens, read, sentence⟩, tokens, read,
      fun rule others parsed read' => ?_⟩
    obtain ⟨_, same, sentence'⟩ := ofRule?_eq_some_iff.1 parsed
    rw [read'] at same
    cases same
    exact fewest rule others read' sentence'

end Condition

namespace Sample

/-- Written as `#stats['a || (b']!=0.50`. -/
def ratio : WrittenComparison :=
  ⟨⟨"stats".toList, [.key "a || (b".toList]⟩, [], .ne, [], ⟨"0".toList, "50".toList⟩⟩

theorem ratio_wellFormed : ratio.WellFormed where
  reference := ⟨⟨by decide, by decide⟩, List.forall_mem_singleton.2 ⟨by decide, by decide⟩⟩
  left := Text.blank_nil
  operator := fun _ => nofun
  right := Text.blank_nil
  number := ⟨⟨by decide, by decide⟩, by decide⟩

/-- A conjunction in a disjunction, itself in a conjunction with a negated conjunction. -/
def nested : Condition :=
  let leaf : Condition := .comparison ratio.comparison
  .and [.or [leaf, .and [leaf, .not (.not leaf)]], .not (.and [leaf, leaf])]

end Sample

open Sample in
theorem parse_print_nested :
    nested.IsRegular Comparison.IsWritten ∧
      Condition.print .alone nested = ("(#stats['a || (b'] != 0.50 || " ++
        "#stats['a || (b'] != 0.50 && !!#stats['a || (b'] != 0.50) && " ++
        "!(#stats['a || (b'] != 0.50 && #stats['a || (b'] != 0.50)").toList ∧
      Condition.ofRule? (Condition.print .alone nested) = some nested := by
  have written : ratio.comparison.IsWritten := ⟨ratio, ratio_wellFormed, rfl⟩
  have regular : nested.IsRegular Comparison.IsWritten := by
    simp [nested, Condition.IsRegular, Condition.AllRegular, written]
  exact ⟨regular, by decide +kernel, (Condition.parse_exact.2.2.2.2 nested regular).1⟩

end ProgressRules

import ProgressRules.Proofs.Condition.Tokens
import ProgressRules.Proofs.Decomposition.Flat

/-! Which conditions are decomposed. A rule without parentheses that is read as a flat condition
has the decomposition that stands for it, if no reference holds an operator. -/

namespace ProgressRules

open Text (Blank Stops Joined)

namespace Condition

/-! ### Flat sentences -/

inductive Interleaved (x : Token) : List Comparison → List Token → Prop where
  | last (c : Comparison) (text : Text) : Interleaved x [c] [.comparison c text]
  | more {cs : List Comparison} {tokens : List Token} (c : Comparison) (text : Text) :
      Interleaved x cs tokens → Interleaved x (c :: cs) (.comparison c text :: x :: tokens)

theorem IsOperand.cases_of_flat {t : Condition} {tokens : List Token} (h : IsOperand t tokens)
    (flat : .leftParen ∉ tokens) :
    (∃ c text, t = .comparison c ∧ tokens = [.comparison c text]) ∨ ∃ u, t = .not u := by
  cases h with
  | comparison c text => exact .inl ⟨c, text, rfl, rfl⟩
  | negation => exact .inr ⟨_, rfl⟩
  | group => simp at flat

theorem IsOperand.eq_comparison {c : Comparison} {tokens : List Token}
    (h : IsOperand (.comparison c) tokens) (flat : .leftParen ∉ tokens) :
    ∃ text, tokens = [.comparison c text] := by
  rcases h.cases_of_flat flat with ⟨c', text, same, rfl⟩ | ⟨u, same⟩
  · cases same
    exact ⟨text, rfl⟩
  · cases same

theorem AreFactors.interleaved {ts : List Condition} {tokens : List Token}
    (h : AreFactors ts tokens) (flat : .leftParen ∉ tokens) {cs : List Comparison}
    (same : ts = cs.map .comparison) : Interleaved .and cs tokens := by
  induction cs generalizing ts tokens with
  | nil => cases h <;> cases same
  | cons c cs ih =>
    cases h with
    | one operand =>
      obtain ⟨rfl, none⟩ := List.cons.inj same
      obtain rfl := List.map_eq_nil_iff.1 none.symm
      obtain ⟨text, rfl⟩ := operand.eq_comparison flat
      exact .last c text
    | @more t ts tokens others operand more =>
      obtain ⟨rfl, same'⟩ := List.cons.inj same
      simp only [List.mem_append, List.mem_cons, not_or] at flat
      obtain ⟨text, rfl⟩ := operand.eq_comparison flat.1
      exact .more c text (ih more flat.2.2 same')

theorem eq_of_conjunction {ts : List Condition} {c : Comparison}
    (h : conjunction ts = .comparison c) : ts = [.comparison c] := by
  match ts, h with
  | [_], rfl => rfl

theorem Interleaved.of_conjunction {ts : List Condition} {tokens : List Token} {c : Comparison}
    (h : AreFactors ts tokens) (flat : .leftParen ∉ tokens)
    (same : conjunction ts = .comparison c) : ∃ text, tokens = [.comparison c text] := by
  have single : ts = [c].map .comparison := eq_of_conjunction same
  cases h.interleaved flat single with
  | last => exact ⟨_, rfl⟩
  | more _ _ others => cases others

theorem AreAlternatives.interleaved {ts : List Condition} {tokens : List Token}
    (h : AreAlternatives ts tokens) (flat : .leftParen ∉ tokens) {cs : List Comparison}
    (same : ts = cs.map .comparison) : Interleaved .or cs tokens := by
  induction cs generalizing ts tokens with
  | nil => cases h <;> cases same
  | cons c cs ih =>
    cases h with
    | one factors =>
      obtain ⟨single, none⟩ := List.cons.inj same
      obtain rfl := List.map_eq_nil_iff.1 none.symm
      obtain ⟨text, rfl⟩ := Interleaved.of_conjunction factors flat single
      exact .last c text
    | @more ts us tokens others factors more =>
      obtain ⟨single, same'⟩ := List.cons.inj same
      simp only [List.mem_append, List.mem_cons, not_or] at flat
      obtain ⟨text, rfl⟩ := Interleaved.of_conjunction factors flat.1 single
      exact .more c text (ih more flat.2.2 same')

theorem IsSentence.areFactors {t : Condition} {tokens : List Token} (h : IsSentence t tokens)
    (other : ∀ ts, t ≠ .or ts) : ∃ ts, t = conjunction ts ∧ AreFactors ts tokens := by
  obtain ⟨ts, rfl, alternatives⟩ := h
  cases alternatives with
  | one factors => exact ⟨_, rfl, factors⟩
  | more factors more =>
    cases more <;> exact absurd rfl (other _)

theorem AreFactors.cases_of_flat {t : Condition} {tokens : List Token}
    (h : AreFactors [t] tokens) (flat : .leftParen ∉ tokens) :
    (∃ c, t = .comparison c) ∨ ∃ u, t = .not u := by
  cases h with
  | one operand =>
    rcases operand.cases_of_flat flat with ⟨c, _, same, -⟩ | negation
    · exact .inl ⟨c, same⟩
    · exact .inr negation
  | more _ others => cases others

theorem IsSentence.interleaved_and {cs : List Comparison} {tokens : List Token}
    (h : IsSentence (.and (cs.map .comparison)) tokens) (flat : .leftParen ∉ tokens) :
    Interleaved .and cs tokens := by
  obtain ⟨ts, same, factors⟩ := h.areFactors fun _ => nofun
  match ts, same, factors with
  | [], _, factors => cases factors
  | [t], same, factors =>
    subst same
    rcases factors.cases_of_flat flat with ⟨_, same⟩ | ⟨_, same⟩ <;> cases same
  | t :: u :: ts, same, factors =>
    exact factors.interleaved flat (Condition.and.inj same).symm

theorem IsSentence.interleaved_or {cs : List Comparison} {tokens : List Token}
    (h : IsSentence (.or (cs.map .comparison)) tokens) (flat : .leftParen ∉ tokens) :
    Interleaved .or cs tokens := by
  obtain ⟨ts, same, alternatives⟩ := h
  match ts, same, alternatives with
  | [], _, alternatives => cases alternatives
  | [t], same, alternatives =>
    exfalso
    cases alternatives with
    | @one us _ factors =>
      match us, same, factors with
      | [], _, factors => cases factors
      | [u], same, factors =>
        have whole : Condition.or (cs.map .comparison) = u := same
        subst whole
        rcases factors.cases_of_flat flat with ⟨_, same⟩ | ⟨_, same⟩ <;> cases same
    | more _ others => cases others
  | t :: u :: ts, same, alternatives =>
    exact alternatives.interleaved flat (Condition.or.inj same).symm

theorem IsSentence.eq_comparison {c : Comparison} {tokens : List Token}
    (h : IsSentence (.comparison c) tokens) (flat : .leftParen ∉ tokens) :
    ∃ text, tokens = [.comparison c text] := by
  obtain ⟨ts, same, factors⟩ := h.areFactors fun _ => nofun
  exact Interleaved.of_conjunction factors flat same.symm

end Condition

/-! ### Rules of flat conditions -/

/-- The lexemes are told by their tokens, up to the blanks in comparisons. -/
theorem Lexeme.ruleText_eq_of_token {x y : Lexeme} (h : x.token = y.token) :
    x.ruleText = y.ruleText :=
  congrArg Token.text h

theorem Lexeme.eq_comparison_of_token {x : Lexeme} {c : Comparison} {text : Text}
    (h : x.token = .comparison c text) :
    ∃ w : WrittenComparison, x = .comparison w ∧ w.comparison = c := by
  cases x with
  | comparison w => exact ⟨w, rfl, (Token.comparison.inj h).1⟩
  | _ => cases h

theorem Layout.exists_joined {x : Lexeme} {cs : List Comparison} {tokens : List Token}
    (h : Condition.Interleaved x.token cs tokens) {layout : Layout}
    (wellFormed : layout.WellFormed) (same : layout.tokens = tokens) :
    ∃ (ws : List WrittenComparison) (body trailing : Text),
      (∀ w ∈ ws, w.WellFormed) ∧ ws.map WrittenComparison.comparison = cs ∧ Blank trailing ∧
      layout.ruleText = body ++ trailing ∧
      Joined x.ruleText (ws.map WrittenComparison.markedText) body := by
  induction h generalizing layout with
  | last c text =>
    obtain ⟨⟨y, gap⟩, rest, rfl, first, none⟩ := List.map_eq_cons_iff.1 same
    obtain rfl := List.map_eq_nil_iff.1 none
    obtain ⟨w, rfl, rfl⟩ := Lexeme.eq_comparison_of_token first
    obtain ⟨wf_w, blank, -⟩ := Layout.wellFormed_cons.1 wellFormed
    refine ⟨[w], w.markedText, gap, List.forall_mem_singleton.2 wf_w, rfl, blank, ?_, .last _⟩
    simp [Layout.ruleText, Layout.text, Lexeme.ruleText, Lexeme.token, Token.text]
  | @more cs tokens c text others ih =>
    obtain ⟨⟨y, gap⟩, rest, rfl, first, same'⟩ := List.map_eq_cons_iff.1 same
    obtain ⟨⟨z, gap'⟩, layout, rfl, second, same''⟩ := List.map_eq_cons_iff.1 same'
    obtain ⟨w, rfl, rfl⟩ := Lexeme.eq_comparison_of_token first
    obtain ⟨wf_w, blank, wellFormed'⟩ := Layout.wellFormed_cons.1 wellFormed
    obtain ⟨-, blank', wf_layout⟩ := Layout.wellFormed_cons.1 wellFormed'
    obtain ⟨ws, body, trailing, wf_ws, rfl, blank_trailing, split, joined⟩ := ih wf_layout same''
    refine ⟨w :: ws, w.markedText ++ (gap ++ x.ruleText ++ gap') ++ body, trailing,
      List.forall_mem_cons.2 ⟨wf_w, wf_ws⟩, rfl, blank_trailing, ?_,
      .more ⟨gap, gap', blank, blank', rfl⟩ joined⟩
    rw [Layout.ruleText_cons, Layout.ruleText_cons, split, Lexeme.ruleText_eq_of_token second]
    simp [Lexeme.ruleText, Lexeme.token, Token.text]

namespace Decomposition

def Quiet (cs : List Comparison) : Prop := ∀ c ∈ cs, '&' ∉ c.reference ∧ '|' ∉ c.reference

theorem not_mem_markedText {w : WrittenComparison} (h : w.WellFormed) {s : Char}
    (operator : s ∈ ['&', '|']) (quiet : s ∉ w.reference.text) : s ∉ w.markedText := by
  have kinds : ∀ s ∈ ['&', '|'], s ≠ '#' ∧ s ∈ WrittenComparison.foreign := by decide
  obtain ⟨mark, foreign⟩ := kinds s operator
  intro inside
  rcases List.mem_cons.1 inside with hash | inside
  · exact mark hash
  · exact h.not_mem_text foreign quiet inside

theorem not_isInfix_markedText {w : WrittenComparison} (h : w.WellFormed) {s : Char}
    (operator : s ∈ ['&', '|']) (quiet : s ∉ w.reference.text) : ¬[s, s] <:+: w.markedText :=
  fun held => not_mem_markedText h operator quiet (held.subset List.mem_cons_self)

/-! ### Recognition -/

theorem leftParen_not_mem_tokens {layout : Layout} {rule : Text} {lead : Text}
    (split : rule = lead ++ layout.ruleText) (unparenthesized : '(' ∉ rule) :
    Token.leftParen ∉ layout.tokens := by
  intro member
  obtain ⟨⟨x, gap⟩, inside, same⟩ := List.mem_map.1 member
  refine unparenthesized ?_
  rw [split]
  refine List.mem_append_right _ (List.mem_flatMap.2 ⟨_, inside, List.mem_append_left _ ?_⟩)
  rw [Lexeme.ruleText, show x.token = .leftParen from same]
  exact List.mem_cons_self

theorem exists_joined_rule {x : Lexeme} {cs : List Comparison} {rule : Text} {tokens : List Token}
    (tokenized : tokenize rule = .ok tokens) (h : Condition.Interleaved x.token cs tokens) :
    ∃ (ws : List WrittenComparison) (lead body trailing : Text), (∀ w ∈ ws, w.WellFormed) ∧
      ws.map WrittenComparison.comparison = cs ∧ Blank lead ∧ Blank trailing ∧
      rule = lead ++ body ++ trailing ∧
      Joined x.ruleText (ws.map WrittenComparison.markedText) body := by
  obtain ⟨lead, layout, blank, wellFormed, rfl, same⟩ := Layout.tokenize_eq_ok.1 tokenized
  obtain ⟨ws, body, trailing, wf_ws, comparisons, blank_trailing, split, joined⟩ :=
    Layout.exists_joined h wellFormed same
  refine ⟨ws, lead, body, trailing, wf_ws, comparisons, blank, blank_trailing, ?_, joined⟩
  rw [split, List.append_assoc]

/-- A flat condition that is written without parentheses is decomposed. -/
theorem decompose_eq_of_standsFor {d : Decomposition} {t : Condition} {rule : Text}
    (standsFor : d.StandsFor t) (read : Condition.ofRule? rule = some t)
    (unparenthesized : '(' ∉ rule) (quiet : Quiet d.comparisons) : decompose rule = d := by
  obtain ⟨tokens, tokenized, sentence⟩ := Condition.ofRule?_eq_some_iff.1 read
  obtain ⟨lead, layout, blank, wellFormed, split, same⟩ := Layout.tokenize_eq_ok.1 tokenized
  have flat : Token.leftParen ∉ tokens := same ▸ leftParen_not_mem_tokens split unparenthesized
  cases standsFor with
  | single c =>
    obtain ⟨text, rfl⟩ := sentence.eq_comparison flat
    obtain ⟨ws, lead, body, trailing, wf_ws, comparisons, blank_lead, blank_trailing, rfl,
      joined⟩ := exists_joined_rule (x := .and) tokenized (.last c text)
    obtain ⟨w, rest, rfl, rfl, none⟩ := List.map_eq_cons_iff.1 comparisons
    obtain rfl := List.map_eq_nil_iff.1 none
    have trimmed := trim_of_joined wf_ws blank_lead blank_trailing joined
    cases joined with
    | last =>
      have flat : IsFlat .none [w] (Text.trim (lead ++ w.markedText ++ trailing)) :=
        trimmed.symm ▸ .single (wf_ws w List.mem_cons_self)
      exact decompose_of_isFlat flat
    | more _ others => exact absurd rfl others.ne_nil
  | all cs several =>
    obtain ⟨ws, lead, body, trailing, wf_ws, rfl, blank_lead, blank_trailing, rfl, joined⟩ :=
      exists_joined_rule (x := .and) tokenized (sentence.interleaved_and flat)
    refine decompose_of_isFlat ?_
    rw [trim_of_joined wf_ws blank_lead blank_trailing joined]
    refine .all (by simpa using several) (fun w hw => ⟨wf_ws w hw, ?_⟩) joined
    exact not_isInfix_markedText (wf_ws w hw) (by decide) (quiet _ (List.mem_map_of_mem hw)).1
  | any cs several =>
    obtain ⟨ws, lead, body, trailing, wf_ws, rfl, blank_lead, blank_trailing, rfl, joined⟩ :=
      exists_joined_rule (x := .or) tokenized (sentence.interleaved_or flat)
    refine decompose_of_isFlat ?_
    rw [trim_of_joined wf_ws blank_lead blank_trailing joined]
    refine .any (by simpa using several) (fun w hw => ⟨wf_ws w hw, ?_, ?_⟩) joined
    · exact not_isInfix_markedText (wf_ws w hw) (by decide) (quiet _ (List.mem_map_of_mem hw)).1
    · exact not_isInfix_markedText (wf_ws w hw) (by decide) (quiet _ (List.mem_map_of_mem hw)).2

end Decomposition

end ProgressRules

import ProgressRules.Proofs.Decomposition.Recognition
import ProgressRules.Proofs.Normalization.Authoring

/-! From authoring texts to conditions. However a condition is written, its normalized text is
read as that condition, and as a flat rule if it is flat and has no parentheses. -/

namespace ProgressRules

open Text (IsRun Blank)

theorem Layout.comparison_isPlain {roots : List Text} {layout : Layout}
    (wellFormed : layout.WellFormed) (plain : layout.IsPlain roots) {c : Comparison}
    (inside : c ∈ layout.tokens.filterMap Token.comparison?) :
    ∃ w : WrittenComparison, w.WellFormed ∧ w.reference.IsPlain roots ∧ w.comparison = c := by
  obtain ⟨token, member, same⟩ := List.mem_filterMap.1 inside
  obtain ⟨⟨x, gap⟩, item, rfl⟩ := List.mem_map.1 member
  cases x with
  | comparison w => exact ⟨w, (wellFormed _ item).1, plain _ item, Option.some.inj same⟩
  | _ => cases same

theorem Layout.quiet_comparisons {roots : List Text} (names : ∀ root ∈ roots, IsName root)
    {layout : Layout} (wellFormed : layout.WellFormed) (plain : layout.IsPlain roots)
    {t : Condition} (sentence : Condition.IsSentence t layout.tokens) :
    Decomposition.Quiet t.comparisons := by
  intro c inside
  rw [sentence.comparisons_eq] at inside
  obtain ⟨w, -, plain_w, rfl⟩ := comparison_isPlain wellFormed plain inside
  exact ⟨plain_w.not_mem_text names (by decide), plain_w.not_mem_text names (by decide)⟩

theorem Layout.leftParen_mem_sourceText {layout : Layout} (h : '(' ∈ layout.tight.ruleText) :
    '(' ∈ layout.sourceText := by
  obtain ⟨item, member, inside⟩ := List.mem_flatMap.1 h
  obtain ⟨⟨x, gap⟩, member', rfl⟩ := List.mem_map.1 member
  refine List.mem_flatMap.2 ⟨(x, gap), member', ?_⟩
  have text : '(' ∈ x.ruleText ++ gap := by
    cases x with
    | not => simp [Lexeme.ruleText, Lexeme.token, Token.text] at inside
    | _ => exact inside
  rcases List.mem_append.1 text with inside | inside
  · refine List.mem_append_left _ ?_
    cases x with
    | comparison w =>
      simpa [Lexeme.sourceText, Lexeme.ruleText, Lexeme.token, Token.text,
        WrittenComparison.markedText] using inside
    | leftParen => exact List.mem_cons_self
    | and | or | not | rightParen => exact absurd inside (by decide)
  · exact List.mem_append_right _ inside

/-- Forward compilation: whatever the layout and the redundant parentheses of an authoring text,
its rule is read as the condition that the text was written for. -/
theorem normalize_isWritten {vars : List Variable} (names : ∀ root ∈ rootsOf vars, IsName root)
    {t : Condition} {text : Text} (written : t.IsWritten (rootsOf vars) text) :
    ∃ rule, normalize vars text = .ok rule ∧ Condition.ofRule? rule = some t ∧
      ∀ d : Decomposition, d.StandsFor t → '(' ∉ text → decompose rule = d := by
  obtain ⟨lead, layout, blank, wellFormed, plain, spaced, sentence, rfl⟩ := written
  have nonempty : layout ≠ [] := by
    rintro rfl
    exact sentence.ne_nil rfl
  have read : Condition.ofRule? (lead ++ layout.tight.ruleText) = some t :=
    Condition.ofRule?_iff_layout.2
      ⟨lead, layout.tight, blank, wellFormed.tight, rfl, by rwa [layout.tight_tokens]⟩
  refine ⟨_, normalize_layout names blank wellFormed plain spaced sentence.alternate nonempty,
    read, fun d standsFor unparenthesized => ?_⟩
  refine Decomposition.decompose_eq_of_standsFor standsFor read (fun inside => ?_) ?_
  · refine unparenthesized (List.mem_append.2 ?_)
    exact (List.mem_append.1 inside).imp id Layout.leftParen_mem_sourceText
  · rw [← standsFor.comparisons_eq]
    exact Layout.quiet_comparisons names wellFormed plain sentence

namespace Sample

def level : WrittenComparison :=
  ⟨⟨"level".toList, []⟩, [' '], .ge, [' '], ⟨"5".toList, []⟩⟩

def coins : WrittenComparison :=
  ⟨⟨"coins".toList, [.member "spare".toList]⟩, [], .lt, [], ⟨"0".toList, "25".toList⟩⟩

def vocabulary : List Variable := [.ofPath "level".toList, .ofPath "coins".toList]

theorem names : ∀ root ∈ rootsOf vocabulary, IsName root := by
  have roots : rootsOf vocabulary = ["level".toList, "coins".toList] := by decide
  rw [roots]
  intro root member
  simp only [List.mem_cons, List.not_mem_nil, or_false] at member
  rcases member with rfl | rfl
  · exact ⟨⟨⟨by decide, by decide⟩, by decide⟩, 'l', "evel".toList, rfl, by decide⟩
  · exact ⟨⟨⟨by decide, by decide⟩, by decide⟩, 'c', "oins".toList, rfl, by decide⟩

theorem level_wellFormed : level.WellFormed where
  reference := ⟨⟨by decide, by decide⟩, by simp [level]⟩
  left := by unfold Blank; decide
  operator := fun _ => nofun
  right := by unfold Blank; decide
  number := ⟨⟨by decide, by decide⟩, by decide⟩

theorem coins_wellFormed : coins.WellFormed where
  reference := ⟨⟨by decide, by decide⟩, List.forall_mem_singleton.2 ⟨by decide, by decide⟩⟩
  left := Text.blank_nil
  operator := fun _ => nofun
  right := Text.blank_nil
  number := ⟨⟨by decide, by decide⟩, by decide⟩

end Sample

open Sample in
theorem normalize_disjunction :
    ∃ rule, normalize vocabulary "level >= 5  or coins.spare<0.25".toList = .ok rule ∧
      Condition.ofRule? rule =
        some (.or [.comparison level.comparison, .comparison coins.comparison]) ∧
      decompose rule = ⟨.or, [level.comparison, coins.comparison]⟩ := by
  have free : IsFree "spare".toList := ⟨⟨by decide, by decide⟩, by decide⟩
  have written : Condition.IsWritten (rootsOf vocabulary)
      (.or [.comparison level.comparison, .comparison coins.comparison])
      "level >= 5  or coins.spare<0.25".toList := by
    refine ⟨[], [(.comparison level, "  ".toList), (.or, [' ']), (.comparison coins, [])],
      Text.blank_nil, ?_, ?_, ?_, ?_, by decide⟩
    · simp only [Layout.wellFormed_cons]
      refine ⟨level_wellFormed, ?_, trivial, ?_, coins_wellFormed, Text.blank_nil, ?_⟩
      · unfold Blank
        decide
      · unfold Blank
        decide
      · intro item member
        cases member
    · intro item member
      simp only [List.mem_cons, List.not_mem_nil, or_false] at member
      rcases member with rfl | rfl | rfl
      · exact ⟨by decide, by simp [level]⟩
      · trivial
      · exact ⟨by decide, List.forall_mem_singleton.2 free⟩
    · simp [Layout.Spaced, Layout.headIs, Lexeme.isKeyword, Lexeme.isJoint]
    · exact ⟨_, rfl, .more (.one (.comparison _ _)) (.one (.one (.comparison _ _)))⟩
  obtain ⟨rule, normalized, read, decomposed⟩ := normalize_isWritten names written
  exact ⟨rule, normalized, read, decomposed _ (.any _ (by decide)) (by decide)⟩

/-! ### Every condition can be written -/

namespace Condition

def IsAuthorableComparison (roots : List Text) (c : Comparison) : Prop :=
  ∃ w : WrittenComparison, w.WellFormed ∧ w.reference.IsPlain roots ∧ w.comparison = c

/-- Groups have at least two operands, and the references are plain. -/
def IsAuthorable (roots : List Text) : Condition → Prop :=
  IsRegular (IsAuthorableComparison roots)

/-- A layout with a blank after every lexeme. -/
structure IsSpread (roots : List Text) (layout : Layout) : Prop where
  wellFormed : layout.WellFormed
  plain : layout.IsPlain roots
  gaps : ∀ item ∈ layout, item.2 ≠ []

variable {roots : List Text}

theorem isSpread_nil : IsSpread roots [] := by
  constructor <;> intro item member <;> cases member

theorem IsSpread.cons {x : Lexeme} {layout : Layout} (wellFormed : x.WellFormed)
    (plain : x.IsPlain roots) (h : IsSpread roots layout) :
    IsSpread roots ((x, [' ']) :: layout) where
  wellFormed := Layout.wellFormed_cons.2 ⟨wellFormed, by simp; decide, h.wellFormed⟩
  plain := List.forall_mem_cons.2 ⟨plain, h.plain⟩
  gaps := List.forall_mem_cons.2 ⟨by simp, h.gaps⟩

theorem IsSpread.append {layout others : Layout} (h : IsSpread roots layout)
    (h' : IsSpread roots others) : IsSpread roots (layout ++ others) where
  wellFormed := List.forall_mem_append.2 ⟨h.wellFormed, h'.wellFormed⟩
  plain := List.forall_mem_append.2 ⟨h.plain, h'.plain⟩
  gaps := List.forall_mem_append.2 ⟨h.gaps, h'.gaps⟩

theorem IsSpread.spaced {layout : Layout} (h : IsSpread roots layout) : layout.Spaced := by
  induction layout with
  | nil => trivial
  | cons item layout ih =>
    obtain ⟨-, wellFormed⟩ := List.forall_mem_cons.1 h.wellFormed
    obtain ⟨-, plain⟩ := List.forall_mem_cons.1 h.plain
    obtain ⟨first, gaps⟩ := List.forall_mem_cons.1 h.gaps
    exact ⟨fun _ => first, ih ⟨wellFormed, plain, gaps⟩⟩

theorem exists_group {ts : List Condition} {layout : Layout} (spread : IsSpread roots layout)
    (alternatives : AreAlternatives ts layout.tokens) :
    ∃ layout, IsSpread roots layout ∧ IsOperand (disjunction ts) layout.tokens := by
  refine ⟨(.leftParen, [' ']) :: (layout ++ [(.rightParen, [' '])]), ?_, ?_⟩
  · exact .cons trivial trivial (spread.append (.cons trivial trivial isSpread_nil))
  · simpa [Layout.tokens, Lexeme.token] using IsOperand.group alternatives

mutual

theorem exists_operand : ∀ {t : Condition}, t.IsAuthorable roots →
    ∃ layout, IsSpread roots layout ∧ IsOperand t layout.tokens
  | .comparison c, ⟨w, wellFormed, plain, same⟩ =>
    ⟨[(.comparison w, [' '])], .cons wellFormed plain isSpread_nil, same ▸ .comparison _ _⟩
  | .not child, h => by
    obtain ⟨layout, spread, operand⟩ := exists_operand (t := child) h
    exact ⟨(.not, [' ']) :: layout, .cons trivial trivial spread, .negation operand⟩
  | .and children, ⟨several, h⟩ => by
    obtain ⟨layout, spread, factors⟩ := exists_factors h (List.ne_nil_of_length_pos (by omega))
    rw [← conjunction_of_several several]
    exact exists_group spread (.one factors)
  | .or children, ⟨several, h⟩ => by
    obtain ⟨layout, spread, alternatives⟩ :=
      exists_alternatives h (List.ne_nil_of_length_pos (by omega))
    rw [← disjunction_of_several several]
    exact exists_group spread alternatives

theorem exists_factors : ∀ {ts : List Condition},
    AllRegular (IsAuthorableComparison roots) ts → ts ≠ [] →
    ∃ layout, IsSpread roots layout ∧ AreFactors ts layout.tokens
  | [], _, nonempty => absurd rfl nonempty
  | [t], h, _ => by
    obtain ⟨layout, spread, operand⟩ := exists_operand h.1
    exact ⟨layout, spread, .one operand⟩
  | t :: u :: ts, h, _ => by
    obtain ⟨layout, spread, operand⟩ := exists_operand h.1
    obtain ⟨others, spread', factors⟩ := exists_factors h.2 (List.cons_ne_nil u ts)
    refine ⟨layout ++ (.and, [' ']) :: others, spread.append (.cons trivial trivial spread'), ?_⟩
    simpa [Layout.tokens, Lexeme.token] using AreFactors.more operand factors

theorem exists_alternatives : ∀ {ts : List Condition},
    AllRegular (IsAuthorableComparison roots) ts → ts ≠ [] →
    ∃ layout, IsSpread roots layout ∧ AreAlternatives ts layout.tokens
  | [], _, nonempty => absurd rfl nonempty
  | [t], h, _ => by
    obtain ⟨layout, spread, operand⟩ := exists_operand h.1
    exact ⟨layout, spread, .one (.one operand)⟩
  | t :: u :: ts, h, _ => by
    obtain ⟨layout, spread, operand⟩ := exists_operand h.1
    obtain ⟨others, spread', alternatives⟩ := exists_alternatives h.2 (List.cons_ne_nil u ts)
    refine ⟨layout ++ (.or, [' ']) :: others, spread.append (.cons trivial trivial spread'), ?_⟩
    simpa [Layout.tokens, Lexeme.token, conjunction] using
      AreAlternatives.more (.one operand) alternatives

end

theorem exists_isWritten {t : Condition} (h : t.IsAuthorable roots) :
    ∃ text, t.IsWritten roots text := by
  obtain ⟨layout, spread, operand⟩ := exists_operand h
  exact ⟨_, [], layout, Text.blank_nil, spread.wellFormed, spread.plain, spread.spaced,
    ⟨[t], rfl, .one (.one operand)⟩, rfl⟩

end Condition

end ProgressRules

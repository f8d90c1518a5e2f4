import ProgressRules.Proofs.Normalization.Compilation
import ProgressRules.Proofs.Restoration.ProgressField

/-! A stored rule that is opened and stored again. Its condition stays the same but for the
thresholds of the progress field, and opening it once more gives the same text. -/

namespace ProgressRules

open Text (Stops Blank isBlank)

/-! ### Restored layouts -/

namespace Layout

variable {field : Text}

def restored (field : Text) (layout : Layout) : Layout := rescaled field (spread layout)

theorem headIs_rescaled {kind : Lexeme → Bool} (same : ∀ x, kind (x.rescaled field) = kind x)
    (layout : Layout) : headIs kind (rescaled field layout) = headIs kind layout := by
  cases layout with
  | nil => rfl
  | cons item layout => exact same item.1

theorem spread_rescaled (layout : Layout) :
    spread (rescaled field layout) = rescaled field (spread layout) := by
  have keyword : ∀ x : Lexeme, (x.rescaled field).isKeyword = x.isKeyword := by
    intro x
    cases x <;> rfl
  have joint : ∀ x : Lexeme, (x.rescaled field).isJoint = x.isJoint := by
    intro x
    cases x <;> rfl
  induction layout with
  | nil => rfl
  | cons item layout ih =>
    have head := headIs_rescaled joint layout
    unfold spread rescaled at ih head ⊢
    simp only [List.map_cons, respace, keyword, head, ih]

theorem spread_tight (layout : Layout) : spread (tight layout) = spread layout := by
  induction layout with
  | nil => rfl
  | cons item layout ih =>
    have head : headIs Lexeme.isJoint (tight layout) = headIs Lexeme.isJoint layout := by
      cases layout with
      | nil => rfl
      | cons item layout =>
        obtain ⟨x, gap⟩ := item
        cases x <;> rfl
    obtain ⟨x, gap⟩ := item
    unfold spread tight at ih head ⊢
    cases x <;> simp [respace, head, ih, Lexeme.isKeyword]

theorem rescaled_rescaled {layout : Layout} (wellFormed : layout.WellFormed) :
    rescaled field (rescaled field layout) = rescaled field layout := by
  simp only [rescaled, List.map_map]
  refine List.map_congr_left fun item member => ?_
  obtain ⟨x, gap⟩ := item
  have wf_x := (wellFormed _ member).1
  cases x with
  | comparison w =>
    simp only [Function.comp_apply, Lexeme.rescaled, WrittenComparison.rescaled_rescaled wf_x]
  | _ => rfl

theorem restored_tight_restored {layout : Layout} (wellFormed : layout.WellFormed) :
    restored field (tight (restored field layout)) = restored field layout := by
  have inner : spread (tight (restored field layout)) = rescaled field (spread layout) := by
    rw [restored, spread_tight, spread_rescaled, spread_spread]
  rw [restored, inner, rescaled_rescaled wellFormed.spread, restored]

theorem WellFormed.rescaled {layout : Layout} (h : layout.WellFormed) :
    (Layout.rescaled field layout).WellFormed := by
  intro item member
  obtain ⟨⟨x, gap⟩, inside, rfl⟩ := List.mem_map.1 member
  obtain ⟨wf_x, blank⟩ := h _ inside
  refine ⟨?_, blank⟩
  cases x with
  | comparison w => exact WrittenComparison.WellFormed.rescaled wf_x
  | _ => trivial

theorem IsPlain.rescaled {roots : List Text} {layout : Layout} (h : layout.IsPlain roots) :
    (Layout.rescaled field layout).IsPlain roots := by
  intro item member
  obtain ⟨⟨x, gap⟩, inside, rfl⟩ := List.mem_map.1 member
  have plain_x := h _ inside
  cases x with
  | comparison w =>
    change Reference.IsPlain roots (WrittenComparison.rescaled field w).reference
    rw [WrittenComparison.reference_rescaled]
    exact plain_x
  | _ => trivial

theorem IsPlain.tight {roots : List Text} {layout : Layout} (h : layout.IsPlain roots) :
    (Layout.tight layout).IsPlain roots := by
  intro item member
  obtain ⟨⟨x, gap⟩, inside, rfl⟩ := List.mem_map.1 member
  have plain_x := h _ inside
  cases x <;> exact plain_x

theorem spaced_restored (layout : Layout) : Spaced (restored field layout) := by
  rw [restored, ← spread_rescaled]
  exact spaced_spread _

theorem tokens_restored (layout : Layout) :
    tokens (restored field layout) =
      (spread layout).map fun item => (item.1.rescaled field).token := by
  simp [restored, tokens, rescaled]

theorem tokens_spread (layout : Layout) : tokens (spread layout) = tokens layout :=
  tokens_respace _ _ layout

end Layout

theorem Lexeme.changed_rescaled {field : Text} {x : Lexeme} (h : x.WellFormed) :
    x.token.Changed (Comparison.rescaled field) (x.rescaled field).token := by
  cases x with
  | comparison w =>
    rw [token, rescaled, token, WrittenComparison.comparison_rescaled h]
    exact .comparison _ _ _
  | and | or | not | leftParen | rightParen => exact .same _ rfl

/-- The restored layout is a sentence for the condition with rescaled comparisons. -/
theorem Condition.IsSentence.restored {field : Text} {t : Condition} {layout : Layout}
    (h : IsSentence t layout.tokens) (wellFormed : layout.WellFormed) :
    IsSentence (t.map (Comparison.rescaled field)) (Layout.restored field layout).tokens := by
  rw [← Layout.tokens_spread] at h
  rw [Layout.tokens_restored]
  exact IsSentence.map
    (fun item member => Lexeme.changed_rescaled (wellFormed.spread item member).1) h

/-! ### Round trip -/

def Condition.HasPlainReferences (roots : List Text) (t : Condition) : Prop :=
  ∀ c ∈ t.comparisons, ∃ r : Reference, r.IsPlain roots ∧ r.text = c.reference

theorem Layout.isPlain_of_condition {roots : List Text} (names : ∀ root ∈ roots, IsName root)
    {t : Condition} {layout : Layout} (wellFormed : layout.WellFormed)
    (sentence : Condition.IsSentence t layout.tokens) (plain : t.HasPlainReferences roots) :
    layout.IsPlain roots := by
  intro item member
  obtain ⟨x, gap⟩ := item
  have wf_x := (wellFormed _ member).1
  cases x with
  | comparison w =>
    have inside : w.comparison ∈ t.comparisons := by
      rw [sentence.comparisons_eq]
      exact List.mem_filterMap.2 ⟨_, List.mem_map.2 ⟨_, member, rfl⟩, rfl⟩
    obtain ⟨r, plain_r, same⟩ := plain _ inside
    cases Reference.text_injective (plain_r.isNamed names).wellFormed wf_x.reference same
    exact plain_r
  | _ => trivial

/-- A rule is restored to the same layout in the authoring language. -/
theorem restore_layout {roots : List Text} (names : ∀ root ∈ roots, IsName root)
    {field : Reference} (named : field.IsNamed) {lead : Text} {layout : Layout}
    (blank : Blank lead) (wellFormed : layout.WellFormed) (plain : layout.IsPlain roots)
    (alternate : Token.Alternate true layout.tokens) (nonempty : layout ≠ []) :
    restore field.text (lead ++ layout.ruleText) =
      lead ++ (Layout.restored field.text layout).sourceText := by
  have alternate' : Token.Alternate true layout.spread.tokens := by
    rwa [Layout.tokens_spread]
  unfold restore
  rw [Layout.ruleText_not_blankOnly nonempty lead, if_neg Bool.false_ne_true,
    words_layout names blank wellFormed plain alternate, Restoration.rescaleProgress, Text.editAll,
    Restoration.editFrom_percentEdit_marks named
      (fun c hc => .inl (Text.not_isWord_of_isBlank (blank c hc))),
    Restoration.editFrom_percentEdit named wellFormed.spread plain.spread
      (Layout.spaced_spread layout) alternate'
      fun _ => Restoration.not_blocksField_gap blank (.inr rfl), Layout.restored]

/-- Opening a stored rule and storing it again rescales the thresholds of the progress field and
changes nothing else, and it does so once. -/
theorem restore_normalize {vars : List Variable} (names : ∀ root ∈ rootsOf vars, IsName root)
    {field : Reference} (named : field.IsNamed) {rule : Text} {t : Condition}
    (read : Condition.ofRule? rule = some t) (plain : t.HasPlainReferences (rootsOf vars)) :
    ∃ stored, normalize vars (restore field.text rule) = .ok stored ∧
      Condition.ofRule? stored = some (t.map (Comparison.rescaled field.text)) ∧
      restore field.text stored = restore field.text rule := by
  obtain ⟨lead, layout, blank, wellFormed, rfl, sentence⟩ := Condition.ofRule?_iff_layout.1 read
  have plain' := Layout.isPlain_of_condition names wellFormed sentence plain
  have nonempty : ∀ {t : Condition} {layout : Layout},
      Condition.IsSentence t layout.tokens → layout ≠ [] := by
    rintro t layout sentence rfl
    exact sentence.ne_nil rfl
  have restored := restore_layout names named blank wellFormed plain' sentence.alternate
    (nonempty sentence)
  have wf_restored : (Layout.restored field.text layout).WellFormed :=
    wellFormed.spread.rescaled
  have plain_restored : (Layout.restored field.text layout).IsPlain (rootsOf vars) :=
    plain'.spread.rescaled
  have sentence_restored : Condition.IsSentence (t.map (Comparison.rescaled field.text))
      (Layout.restored field.text layout).tokens := sentence.restored wellFormed
  have stored := normalize_layout names blank wf_restored plain_restored
    (Layout.spaced_restored layout) sentence_restored.alternate (nonempty sentence_restored)
  rw [restored]
  have sentence_stored : Condition.IsSentence (t.map (Comparison.rescaled field.text))
      (Layout.restored field.text layout).tight.tokens := by
    rwa [Layout.tight_tokens]
  -- what is stored is the restored layout, so the second opening meets spread lexemes only
  refine ⟨_, stored, ?_, ?_⟩
  · exact Condition.ofRule?_iff_layout.2
      ⟨lead, _, blank, wf_restored.tight, rfl, sentence_stored⟩
  · have again := restore_layout names named blank wf_restored.tight plain_restored.tight
      sentence_stored.alternate (nonempty sentence_stored)
    rw [Layout.restored_tight_restored wellFormed] at again
    exact again

namespace Sample

def half : WrittenComparison := { level with number := ⟨"0".toList, "5".toList⟩ }

theorem half_wellFormed : half.WellFormed :=
  { level_wellFormed with number := ⟨⟨by decide, by decide⟩, by decide⟩ }

end Sample

open Sample in
theorem restore_normalize_half :
    ∃ stored, normalize vocabulary
        (restore "level".toList "#level >= 0.5&&#coins.spare<0.25".toList) = .ok stored ∧
      Condition.ofRule? stored = some (.and
        [.comparison (half.comparison.rescaled "level".toList),
          .comparison (coins.comparison.rescaled "level".toList)]) ∧
      restore "level".toList stored = "level >= 50 and coins.spare<0.25".toList := by
  have free : IsFree "spare".toList := ⟨⟨by decide, by decide⟩, by decide⟩
  have named : Reference.IsNamed ⟨"level".toList, []⟩ := ⟨names _ (by decide), by simp⟩
  have read : Condition.ofRule? "#level >= 0.5&&#coins.spare<0.25".toList =
      some (.and [.comparison half.comparison, .comparison coins.comparison]) := by
    refine Condition.ofRule?_iff_layout.2 ⟨[],
      [(.comparison half, []), (.and, []), (.comparison coins, [])], Text.blank_nil, ?_, rfl,
      [_], rfl, .one (.more (.comparison _ _) (.one (.comparison _ _)))⟩
    simp only [Layout.wellFormed_cons]
    exact ⟨half_wellFormed, Text.blank_nil, trivial, Text.blank_nil, coins_wellFormed,
      Text.blank_nil, by simp [Layout.WellFormed]⟩
  have plain : Condition.HasPlainReferences (rootsOf vocabulary)
      (.and [.comparison half.comparison, .comparison coins.comparison]) := by
    intro c member
    simp only [Condition.comparisons, Condition.comparisonsOfAll, List.append_nil,
      List.singleton_append, List.mem_cons, List.not_mem_nil, or_false] at member
    rcases member with rfl | rfl
    · exact ⟨half.reference, ⟨by decide, by simp [half, level]⟩, rfl⟩
    · exact ⟨coins.reference, ⟨by decide, List.forall_mem_singleton.2 free⟩, rfl⟩
  obtain ⟨stored, normalized, condition, again⟩ := restore_normalize names named read plain
  refine ⟨stored, normalized, condition, again.trans ?_⟩
  decide +kernel

end ProgressRules

import ProgressRules.Normalization
import ProgressRules.Proofs.Decomposition.Flat
import ProgressRules.Proofs.Restoration.ProgressField
import ProgressRules.Proofs.Text.Splitting

/-! Which marks are left in the authoring text of a rule. Marks are dropped by the first pass only,
and none of the later ones writes or takes one. So the marks that are left are those of the
references that begin with neither an ASCII letter nor an underscore. -/

namespace ProgressRules

open Text (KeepsCount editFrom)

namespace Restoration

/-! ### Passes that leave marks alone -/

theorem operatorWord_keepsCount {symbol word : String}
    (same : word.toList.count '#' = symbol.toList.count '#') :
    KeepsCount '#' (operatorWord symbol word) := by
  intro before text edit found
  obtain ⟨rest, padded, rfl⟩ := Option.map_eq_some_iff.1 found
  obtain ⟨separator, ⟨left, right, blank_left, blank_right, rfl⟩, rfl⟩ :=
    Text.padded_eq_some padded
  refine Text.count_upTo ?_
  rw [List.count_append, List.count_append, blank_left.count_eq_zero (by decide),
    blank_right.count_eq_zero (by decide), same, Nat.zero_add, Nat.add_zero]

theorem negationWord_keepsCount : KeepsCount '#' negationWord := by
  intro before text edit found
  unfold negationWord at found
  split at found
  · cases found
  · rename_i rest _
    cases found
    obtain ⟨gap, blank, split, -⟩ := Text.exists_gap rest
    have front : '!' :: rest = ('!' :: gap) ++ Text.trimStart rest := congrArg ('!' :: ·) split
    rw [front]
    refine Text.count_upTo ?_
    rw [List.count_cons, blank.count_eq_zero (by decide)]
    rfl
  · cases found

theorem readThreshold_eq_some {text threshold rest : Text}
    (h : readThreshold text = some (threshold, rest)) :
    text = threshold ++ rest ∧ ∀ c ∈ threshold, continuesNumber c = true := by
  unfold readThreshold at h
  split at h
  · rename_i n rest' found
    cases h
    obtain ⟨wellFormed, split, -⟩ := Numeral.read_eq_some found
    exact ⟨split, fun c => Numeral.continuesNumber_of_mem wellFormed⟩
  · obtain ⟨⟨fraction, rest'⟩, found, same⟩ := Option.map_eq_some_iff.1 h
    cases same
    obtain ⟨run, split, -⟩ := Numeral.readFraction_eq_some found
    refine ⟨split, List.forall_mem_cons.2 ⟨by decide, fun c inside => ?_⟩⟩
    simp [continuesNumber, run.2 c inside]

theorem count_shown {threshold : Text} (number : ∀ c ∈ threshold, continuesNumber c = true) :
    (Percent.shown threshold).count '#' = 0 := by
  have kept : threshold.count '#' = 0 :=
    List.count_eq_zero.2 fun inside => absurd (number '#' inside) (by decide)
  unfold Percent.shown Percent.rescale
  split
  · exact kept
  split
  · exact kept
  rename_i l _
  split
  · exact kept
  cases l.hundredfold with
  | error e => exact kept
  | ok n =>
    have digits : (Text.ofNat n).count '#' = 0 := List.count_eq_zero.2 fun inside =>
      absurd ((Percent.isRun_ofNat n).2 '#' inside) (by decide)
    change (Binary64.signed l.negative (Text.ofNat n)).count '#' = 0
    unfold Binary64.signed
    split
    · rw [List.count_cons, digits]
      rfl
    · exact digits

theorem readProgress_eq_some {progressField text left threshold rest : Text}
    (h : readProgress progressField text = some ((left, threshold), rest)) :
    text = left ++ (threshold ++ rest) ∧ ∀ c ∈ threshold, continuesNumber c = true := by
  simp only [readProgress, Option.bind_eq_bind, Option.bind_eq_some_iff] at h
  obtain ⟨afterField, field, ⟨operator, afterOperator⟩, symbol, ⟨number, rest'⟩, read, same⟩ := h
  cases same
  obtain ⟨gap, -, split_gap, -⟩ := Text.exists_gap afterField
  obtain ⟨gap', -, split_gap', -⟩ := Text.exists_gap afterOperator
  obtain ⟨split_number, digits⟩ := readThreshold_eq_some read
  have front : text = (progressField ++ gap ++ operator.symbol ++ gap') ++
      Text.trimStart afterOperator := by
    calc text = progressField ++ afterField := Text.dropLiteral_eq_some field
      _ = progressField ++ (gap ++ (operator.symbol ++ afterOperator)) := by
        rw [← (Operator.read_eq_some symbol).2, ← split_gap]
      _ = progressField ++ (gap ++ (operator.symbol ++ (gap' ++ Text.trimStart afterOperator))) := by
        rw [← split_gap']
      _ = _ := by simp only [List.append_assoc]
  have taken := Text.take_front (progressField ++ gap ++ operator.symbol ++ gap')
    (Text.trimStart afterOperator)
  rw [← front] at taken
  rw [taken, ← split_number]
  exact ⟨front, digits⟩

theorem percentEdit_keepsCount (progressField : Text) :
    KeepsCount '#' (percentEdit progressField) := by
  intro before text edit found
  unfold percentEdit at found
  split at found
  · cases found
  obtain ⟨⟨⟨left, threshold⟩, rest⟩, read, rfl⟩ := Option.map_eq_some_iff.1 found
  obtain ⟨rfl, digits⟩ := readProgress_eq_some read
  have number : threshold.count '#' = 0 :=
    List.count_eq_zero.2 fun inside => absurd (digits '#' inside) (by decide)
  rw [← List.append_assoc]
  refine Text.count_upTo ?_
  rw [List.count_append, List.count_append, number]
  exact congrArg _ (count_shown digits)

theorem count_restore {rule : Text} (visible : Text.blankOnly rule = false) (progressField : Text) :
    (restore progressField rule).count '#' = (Text.editAll dropMark rule).count '#' := by
  rw [restore, if_neg (by simp [visible]), rescaleProgress,
    (percentEdit_keepsCount progressField).count_editAll, negationWord_keepsCount.count_editAll,
    (operatorWord_keepsCount (by decide)).count_editAll,
    (operatorWord_keepsCount (by decide)).count_editAll,
    Text.count_replaceWord (by decide), Text.count_replaceWord (by decide)]

/-! ### Marks that are dropped -/

theorem editFrom_dropMark_mark (before : Option Char) (text : Text) :
    editFrom dropMark before 0 ('#' :: text) =
      (if text.head?.any isAsciiName then [] else ['#']) ++
        editFrom dropMark (some '#') 0 text := by
  cases text with
  | nil => rfl
  | cons c text =>
    rw [editFrom, dropMark, List.head?_cons, Option.any_some]
    cases isAsciiName c <;> rfl

theorem count_dropMark_inert {front : Text} (outside : '#' ∉ front) (before : Option Char)
    (rest : Text) : (editFrom dropMark before 0 (front ++ rest)).count '#' =
      (editFrom dropMark (front.getLast?.or before) 0 rest).count '#' := by
  rw [editFrom_dropMark_inert outside, List.count_append, List.count_eq_zero.2 outside,
    Nat.zero_add]

end Restoration

open Restoration

/-- The reference begins with a character that no mark is dropped for. -/
def Comparison.keepsMark (c : Comparison) : Bool := !c.reference.head?.any isAsciiName

theorem Lexeme.count_dropMark {x : Lexeme} (h : x.WellFormed)
    (plain : ∀ c ∈ x.token.comparison?, '#' ∉ c.reference) (before : Option Char) (rest : Text) :
    ∃ last, (editFrom dropMark before 0 (x.ruleText ++ rest)).count '#' =
      x.token.comparison?.toList.countP Comparison.keepsMark +
        (editFrom dropMark last 0 rest).count '#' := by
  cases x with
  | comparison w =>
    have outside : '#' ∉ w.text := h.not_mem_text (by decide) (plain w.comparison rfl)
    have first : (w.text ++ rest).head? = w.comparison.reference.head? := by
      obtain ⟨c, root, same⟩ := List.exists_cons_of_ne_nil h.reference.root.1
      simp [WrittenComparison.text, WrittenComparison.comparison, Reference.text, same]
    have mark := congrArg (List.count '#') (editFrom_dropMark_mark before (w.text ++ rest))
    rw [List.count_append, count_dropMark_inert outside, first] at mark
    refine ⟨_, mark.trans (congrArg (· + _) ?_)⟩
    cases kept : w.comparison.reference.head?.any isAsciiName <;>
      simp [Lexeme.token, Token.comparison?, Comparison.keepsMark, kept]
  | and | or | not | leftParen | rightParen =>
    exact ⟨_, (count_dropMark_inert (by decide) before rest).trans (Nat.zero_add _).symm⟩

theorem Layout.count_dropMark {layout : Layout} (wellFormed : layout.WellFormed)
    (plain : ∀ c ∈ layout.tokens.filterMap Token.comparison?, '#' ∉ c.reference)
    (before : Option Char) :
    (editFrom dropMark before 0 layout.ruleText).count '#' =
      (layout.tokens.filterMap Token.comparison?).countP Comparison.keepsMark := by
  induction layout generalizing before with
  | nil => rfl
  | cons item layout ih =>
    obtain ⟨x, gap⟩ := item
    obtain ⟨wf_x, blank, wf_layout⟩ := Layout.wellFormed_cons.1 wellFormed
    have split : (Layout.tokens ((x, gap) :: layout)).filterMap Token.comparison? =
        x.token.comparison?.toList ++ (Layout.tokens layout).filterMap Token.comparison? := by
      rw [Layout.tokens, List.map_cons, List.filterMap_cons]
      cases x.token.comparison? <;> rfl
    rw [split] at plain ⊢
    obtain ⟨first, others⟩ := List.forall_mem_append.1 plain
    obtain ⟨last, same⟩ := Lexeme.count_dropMark wf_x (fun c hc => first c (by simpa using hc))
      before (gap ++ Layout.ruleText layout)
    rw [Layout.ruleText_cons, same, count_dropMark_inert (blank.not_mem (by decide)),
      ih wf_layout others, List.countP_append]

theorem Comparison.keepsMark_eq_false_iff {c : Comparison} : c.keepsMark = false ↔
    ∃ first rest, c.reference = first :: rest ∧ isAsciiName first = true := by
  cases same : c.reference <;> simp [Comparison.keepsMark, same]

/-- A restored rule keeps the marks of the references that begin with neither an ASCII letter nor
an underscore, and no others. -/
theorem restore_unmarked_iff (progressField : Text) {rule : Text} {t : Condition}
    (accepted : Condition.ofRule? rule = some t)
    (plain : ∀ c ∈ t.comparisons, '#' ∉ c.reference) :
    (restore progressField rule).count '#' = t.comparisons.countP Comparison.keepsMark ∧
      ('#' ∉ restore progressField rule ↔ ∀ c ∈ t.comparisons,
        ∃ first rest, c.reference = first :: rest ∧ isAsciiName first = true) := by
  obtain ⟨tokens, tokenized, sentence⟩ := Condition.ofRule?_eq_some_iff.1 accepted
  have visible := Condition.not_blankOnly tokenized sentence.ne_nil
  obtain ⟨lead, layout, blank, wellFormed, rfl, rfl⟩ := Layout.tokenize_eq_ok.1 tokenized
  rw [sentence.comparisons_eq] at plain ⊢
  have count : (restore progressField (lead ++ layout.ruleText)).count '#' =
      (layout.tokens.filterMap Token.comparison?).countP Comparison.keepsMark := by
    rw [count_restore visible, Text.editAll, count_dropMark_inert (blank.not_mem (by decide)),
      Layout.count_dropMark wellFormed plain]
  refine ⟨count, ?_⟩
  rw [← List.count_eq_zero, count, List.countP_eq_zero]
  refine forall₂_congr fun c inside => ?_
  rw [← Comparison.keepsMark_eq_false_iff, Bool.not_eq_true]

namespace Sample

def accented : WrittenComparison := ⟨⟨['é'], []⟩, [' '], .ge, [' '], ⟨['5'], []⟩⟩

theorem accented_wellFormed : accented.WellFormed where
  reference := ⟨⟨by decide, by decide +kernel⟩, fun _ => nofun⟩
  left := Text.blank_cons.2 ⟨by decide, Text.blank_nil⟩
  operator := fun _ => nofun
  right := Text.blank_cons.2 ⟨by decide, Text.blank_nil⟩
  number := ⟨⟨by decide, by decide⟩, by decide⟩

end Sample

open Sample

/-- The mark that normalization writes for a letter beyond ASCII is not dropped. -/
theorem restore_accented :
    (normalize [.ofPath ['é']] accented.text).toOption = some accented.markedText ∧
      Condition.ofRule? accented.markedText = some (.comparison accented.comparison) ∧
      '#' ∉ accented.comparison.reference ∧
      restore "progressField".toList accented.markedText = accented.markedText ∧
      '#' ∈ restore "progressField".toList accented.markedText := by
  have read : Comparison.ofText? accented.markedText = some accented.comparison :=
    Comparison.ofText_eq_some.2 ⟨accented, [], [], accented_wellFormed, rfl, Text.blank_nil,
      Text.blank_nil, by simp⟩
  exact ⟨by decide +kernel, Decomposition.ofRule?_of_ofText? read, by decide, by decide +kernel,
    by decide +kernel⟩

/-- A letter beyond ASCII may stand in a key. -/
theorem restore_key_unmarked :
    '#' ∉ restore "progressField".toList "#progressField >= 0.5 && #stats['é'] < 3".toList := by
  have recognised :
      (decompose "#progressField >= 0.5 && #stats['é'] < 3".toList).failed = false := by
    decide +kernel
  obtain ⟨t, standsFor, accepted⟩ := Decomposition.exists_standsFor recognised
  have references : t.comparisons.map Comparison.reference =
      ["progressField".toList, "stats['é']".toList] := by
    rw [standsFor.comparisons_eq]
    decide +kernel
  have each : ∀ r ∈ t.comparisons.map Comparison.reference, '#' ∉ r ∧
      ∃ first rest, r = first :: rest ∧ isAsciiName first = true := by
    rw [references]
    exact List.forall_mem_cons.2 ⟨⟨by decide, 'p', _, rfl, by decide⟩,
      List.forall_mem_singleton.2 ⟨by decide, 's', _, rfl, by decide⟩⟩
  have each := List.forall_mem_map.1 each
  exact (restore_unmarked_iff "progressField".toList accepted fun c inside =>
    (each c inside).1).2.2 fun c inside => (each c inside).2

end ProgressRules

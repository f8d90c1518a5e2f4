import ProgressRules.Decomposition
import ProgressRules.Proofs.Condition.Grammar
import ProgressRules.Proofs.Text.Splitting

/-! Flat rules as layouts. A rule that is decomposed is a layout of comparisons with one
operator between neighbours, and it is read as the condition that its decomposition stands
for; conversely such a layout is decomposed if no comparison holds an operator. -/

namespace ProgressRules

open Text (Blank Stops Joined)

namespace Decomposition

inductive StandsFor : Decomposition → Condition → Prop where
  | single (c : Comparison) : StandsFor ⟨.none, [c]⟩ (.comparison c)
  | all (cs : List Comparison) (several : 2 ≤ cs.length) :
      StandsFor ⟨.and, cs⟩ (.and (cs.map .comparison))
  | any (cs : List Comparison) (several : 2 ≤ cs.length) :
      StandsFor ⟨.or, cs⟩ (.or (cs.map .comparison))

theorem StandsFor.recognised {d : Decomposition} {t : Condition} (h : d.StandsFor t) :
    d.failed = false := by
  cases h with
  | single c => rfl
  | all cs several | any cs several =>
    simpa [failed] using List.length_pos_iff.1 (by omega : 0 < cs.length)

theorem StandsFor.unique {d : Decomposition} {t u : Condition} (h : d.StandsFor t)
    (h' : d.StandsFor u) : t = u := by
  cases h <;> cases h' <;> rfl

theorem comparisonsOfAll_comparisons (cs : List Comparison) :
    Condition.comparisonsOfAll (cs.map .comparison) = cs := by
  induction cs with
  | nil => rfl
  | cons c cs ih => rw [List.map_cons, Condition.comparisonsOfAll, ih]; rfl

theorem StandsFor.comparisons_eq {d : Decomposition} {t : Condition}
    (h : d.StandsFor t) : t.comparisons = d.comparisons := by
  cases h with
  | single c => rfl
  | all cs | any cs => exact comparisonsOfAll_comparisons cs

end Decomposition

def Lexeme.joined (x : Lexeme) (ws : List WrittenComparison) : List Lexeme :=
  (ws.map Lexeme.comparison).intersperse x

def Layout.lexemes (layout : Layout) : List Lexeme := layout.map Prod.fst

theorem Layout.tokens_eq (layout : Layout) : layout.tokens = layout.lexemes.map Lexeme.token := by
  simp [tokens, lexemes]

namespace Lexeme

theorem joined_cons (x : Lexeme) (w v : WrittenComparison) (ws : List WrittenComparison) :
    joined x (w :: v :: ws) = .comparison w :: x :: joined x (v :: ws) := rfl

theorem areFactors_joined {ws : List WrittenComparison} (nonempty : ws ≠ []) :
    Condition.AreFactors (ws.map fun w => .comparison w.comparison)
      ((joined .and ws).map token) := by
  induction ws with
  | nil => exact absurd rfl nonempty
  | cons w ws ih =>
    cases ws with
    | nil => exact .one (.comparison _ _)
    | cons v ws => exact .more (.comparison _ _) (ih (by simp))

theorem areAlternatives_joined {ws : List WrittenComparison} (nonempty : ws ≠ []) :
    Condition.AreAlternatives (ws.map fun w => .comparison w.comparison)
      ((joined .or ws).map token) := by
  induction ws with
  | nil => exact absurd rfl nonempty
  | cons w ws ih =>
    have first : Condition.AreFactors [.comparison w.comparison] [(comparison w).token] :=
      .one (.comparison _ _)
    cases ws with
    | nil => exact .one first
    | cons v ws => exact .more first (ih (by simp))

end Lexeme

namespace Condition

theorem conjunction_of_several {ts : List Condition} (h : 2 ≤ ts.length) :
    conjunction ts = .and ts := by
  match ts, h with
  | _ :: _ :: _, _ => rfl

theorem disjunction_of_several {ts : List Condition} (h : 2 ≤ ts.length) :
    disjunction ts = .or ts := by
  match ts, h with
  | _ :: _ :: _, _ => rfl

end Condition

namespace Decomposition

/-! ### The grammar of flat rules -/

/-- Comparisons as they are written in a flat rule with the combinator. -/
inductive IsFlat : Combinator → List WrittenComparison → Text → Prop where
  | single {w : WrittenComparison} : w.WellFormed → IsFlat .none [w] w.markedText
  | all {ws : List WrittenComparison} {text : Text} : 2 ≤ ws.length →
      (∀ w ∈ ws, w.WellFormed ∧ ¬"&&".toList <:+: w.markedText) →
      Joined "&&".toList (ws.map WrittenComparison.markedText) text → IsFlat .and ws text
  | any {ws : List WrittenComparison} {text : Text} : 2 ≤ ws.length →
      (∀ w ∈ ws, w.WellFormed ∧ ¬"&&".toList <:+: w.markedText ∧ ¬"||".toList <:+: w.markedText) →
      Joined "||".toList (ws.map WrittenComparison.markedText) text → IsFlat .or ws text

theorem starts_markedText {ws : List WrittenComparison} (part : Text)
    (member : part ∈ ws.map WrittenComparison.markedText) :
    part ≠ [] ∧ Stops Text.isBlank part := by
  obtain ⟨w, -, rfl⟩ := List.mem_map.1 member
  exact ⟨by simp [WrittenComparison.markedText], Text.stops_cons.2 (by decide)⟩

theorem trim_of_joined {symbol : Text} {ws : List WrittenComparison}
    (wellFormed : ∀ w ∈ ws, w.WellFormed) {lead body trailing : Text} (blank_lead : Blank lead)
    (blank_trailing : Blank trailing)
    (joined : Joined symbol (ws.map WrittenComparison.markedText) body) :
    Text.trim (lead ++ body ++ trailing) = body := by
  have ends : ∀ part ∈ ws.map WrittenComparison.markedText, part ≠ [] ∧ Text.Ends part := by
    intro part member
    refine ⟨(starts_markedText part member).1, ?_⟩
    obtain ⟨w, inside, rfl⟩ := List.mem_map.1 member
    exact (wellFormed w inside).ends_markedText
  exact Text.trim_gaps blank_lead blank_trailing (joined.stops starts_markedText)
    (joined.ends ends).2

/-! ### Flat rules are read as conditions -/

theorem exists_layout_of_joined {x : Lexeme} (wf_x : x.WellFormed) {ws : List WrittenComparison}
    (wellFormed : ∀ w ∈ ws, w.WellFormed) {body trailing : Text}
    (joined : Joined x.ruleText (ws.map WrittenComparison.markedText) body)
    (blank : Blank trailing) :
    ∃ layout : Layout, layout.WellFormed ∧ body ++ trailing = layout.ruleText ∧
      layout.lexemes = x.joined ws := by
  induction ws generalizing body with
  | nil => exact absurd rfl joined.ne_nil
  | cons w ws ih =>
    obtain ⟨wf_w, others⟩ := List.forall_mem_cons.1 wellFormed
    cases ws with
    | nil =>
      cases joined with
      | last =>
        refine ⟨[(.comparison w, trailing)], Layout.wellFormed_cons.2 ⟨wf_w, blank, nofun⟩, ?_, rfl⟩
        simp [Layout.ruleText, Layout.text, Lexeme.ruleText, Lexeme.token, Token.text]
      | more _ none => exact absurd rfl none.ne_nil
    | cons v ws =>
      rw [List.map_cons] at joined
      cases joined with
      | @more _ _ separator text isSeparator joined =>
        obtain ⟨left, right, blank_left, blank_right, rfl⟩ := isSeparator
        obtain ⟨layout, wf_layout, split, lexemes⟩ := ih others joined
        refine ⟨(.comparison w, left) :: (x, right) :: layout, ?_, ?_, ?_⟩
        · exact Layout.wellFormed_cons.2 ⟨wf_w, blank_left,
            Layout.wellFormed_cons.2 ⟨wf_x, blank_right, wf_layout⟩⟩
        · rw [Layout.ruleText_cons, Layout.ruleText_cons, ← split]
          simp [Lexeme.ruleText, Lexeme.token, Token.text]
        · simp only [Layout.lexemes, List.map_cons, Lexeme.joined_cons, ← lexemes]

theorem tokenize_of_joined {x : Lexeme} (wf_x : x.WellFormed) {ws : List WrittenComparison}
    (wellFormed : ∀ w ∈ ws, w.WellFormed) {rule : Text}
    (joined : Joined x.ruleText (ws.map WrittenComparison.markedText) (Text.trim rule)) :
    tokenize rule = .ok ((x.joined ws).map Lexeme.token) := by
  obtain ⟨lead, trailing, blank_lead, blank_trailing, split, -⟩ := Text.exists_trim_gaps rule
  obtain ⟨layout, wf_layout, same, lexemes⟩ :=
    exists_layout_of_joined wf_x wellFormed joined blank_trailing
  refine Layout.tokenize_eq_ok.2 ⟨lead, layout, blank_lead, wf_layout, ?_, ?_⟩
  · rw [← same, ← List.append_assoc]
    exact split
  · rw [← lexemes, Layout.tokens_eq]

theorem ofRule?_of_ofText? {rule : Text} {c : Comparison} (h : Comparison.ofText? rule = some c) :
    Condition.ofRule? rule = some (.comparison c) := by
  obtain ⟨w, lead, trailing, wellFormed, rfl, blank_lead, blank_trailing, rfl⟩ :=
    Comparison.ofText_eq_some.1 h
  refine Condition.ofRule?_eq_some_iff.2 ⟨[(Lexeme.comparison w).token], ?_, _, rfl,
    .one (.one (.comparison _ _))⟩
  refine Layout.tokenize_eq_ok.2 ⟨lead, [(.comparison w, trailing)], blank_lead, ?_, ?_, rfl⟩
  · simp [Layout.WellFormed, Lexeme.WellFormed, wellFormed, blank_trailing]
  · simp [Layout.ruleText, Layout.text, Lexeme.ruleText, Lexeme.token, Token.text]

theorem standsFor_conjunction {rule : Text} {ws : List WrittenComparison} (several : 2 ≤ ws.length)
    (read : tokenize rule = .ok ((Lexeme.joined .and ws).map Lexeme.token)) :
    ∃ t, StandsFor ⟨.and, ws.map WrittenComparison.comparison⟩ t ∧
      Condition.ofRule? rule = some t := by
  have nonempty : ws ≠ [] := List.ne_nil_of_length_pos (by omega)
  refine ⟨_, .all _ (by simpa using several), Condition.ofRule?_eq_some_iff.2
    ⟨_, read, _, ?_, .one (Lexeme.areFactors_joined nonempty)⟩⟩
  rw [Condition.disjunction, Condition.conjunction_of_several (by simpa using several)]
  exact congrArg Condition.and (by simp)

theorem standsFor_disjunction {rule : Text} {ws : List WrittenComparison} (several : 2 ≤ ws.length)
    (read : tokenize rule = .ok ((Lexeme.joined .or ws).map Lexeme.token)) :
    ∃ t, StandsFor ⟨.or, ws.map WrittenComparison.comparison⟩ t ∧
      Condition.ofRule? rule = some t := by
  have nonempty : ws ≠ [] := List.ne_nil_of_length_pos (by omega)
  refine ⟨_, .any _ (by simpa using several), Condition.ofRule?_eq_some_iff.2
    ⟨_, read, _, ?_, Lexeme.areAlternatives_joined nonempty⟩⟩
  rw [Condition.disjunction_of_several (by simpa using several)]
  exact congrArg Condition.or (by simp)

theorem ofText?_of_single {w : WrittenComparison} (wellFormed : w.WellFormed) {rule : Text}
    (same : Text.trim rule = w.markedText) : Comparison.ofText? rule = some w.comparison := by
  obtain ⟨lead, trailing, blank_lead, blank_trailing, split, -⟩ := Text.exists_trim_gaps rule
  rw [same] at split
  exact Comparison.ofText_eq_some.2
    ⟨w, lead, trailing, wellFormed, rfl, blank_lead, blank_trailing, split⟩

theorem IsFlat.exists_tokens {k : Combinator} {ws : List WrittenComparison} {rule : Text}
    (h : IsFlat k ws (Text.trim rule)) :
    ∃ x : Lexeme, (x = .and ∨ x = .or) ∧ tokenize rule = .ok ((x.joined ws).map Lexeme.token) := by
  generalize same : Text.trim rule = text at h
  cases h with
  | @single w wellFormed =>
    refine ⟨.and, .inl rfl, ?_⟩
    refine tokenize_of_joined (x := .and) trivial (List.forall_mem_singleton.2 wellFormed) ?_
    rw [same]
    exact .last _
  | all several each joined =>
    subst same
    exact ⟨.and, .inl rfl,
      tokenize_of_joined (x := .and) trivial (fun w hw => (each w hw).1) joined⟩
  | any several each joined =>
    subst same
    exact ⟨.or, .inr rfl,
      tokenize_of_joined (x := .or) trivial (fun w hw => (each w hw).1) joined⟩

theorem IsFlat.exists_standsFor {k : Combinator} {ws : List WrittenComparison} {rule : Text}
    (h : IsFlat k ws (Text.trim rule)) :
    ∃ t, StandsFor ⟨k, ws.map WrittenComparison.comparison⟩ t ∧
      Condition.ofRule? rule = some t := by
  generalize same : Text.trim rule = text at h
  cases h with
  | single wellFormed =>
    exact ⟨_, .single _, ofRule?_of_ofText? (ofText?_of_single wellFormed same)⟩
  | all several each joined =>
    subst same
    exact standsFor_conjunction several
      (tokenize_of_joined (x := .and) trivial (fun w hw => (each w hw).1) joined)
  | any several each joined =>
    subst same
    exact standsFor_disjunction several
      (tokenize_of_joined (x := .or) trivial (fun w hw => (each w hw).1) joined)

/-! ### What is decomposed is a flat rule -/

theorem readParts_cons_eq_ok {part : Text} {parts : List Text} {cs : List Comparison}
    (h : readParts (part :: parts) = .ok cs) :
    ∃ c others, Comparison.ofText? part = some c ∧ readParts parts = .ok others ∧
      cs = c :: others := by
  rw [readParts] at h
  split at h
  · rename_i c found
    cases more : readParts parts with
    | error e =>
      rw [more] at h
      cases h
    | ok others =>
      rw [more] at h
      cases h
      exact ⟨c, others, found, rfl, rfl⟩
  · cases h

/-- The blanks around the comparisons of the parts belong to the separators. -/
theorem exists_written_of_joined {symbol : Text} {parts : List Text} {text : Text}
    {cs : List Comparison} (joined : Joined symbol parts text) (h : readParts parts = .ok cs) :
    ∃ (ws : List WrittenComparison) (lead body trailing : Text), Blank lead ∧ Blank trailing ∧
      text = lead ++ body ++ trailing ∧ cs = ws.map WrittenComparison.comparison ∧
      (∀ w ∈ ws, w.WellFormed ∧ ∃ part ∈ parts, w.markedText <:+: part) ∧
      ws.length = parts.length ∧ Joined symbol (ws.map WrittenComparison.markedText) body := by
  induction joined generalizing cs with
  | last part =>
    obtain ⟨c, others, found, none, rfl⟩ := readParts_cons_eq_ok h
    cases none
    obtain ⟨w, lead, trailing, wf_w, rfl, blank_lead, blank_trailing, rfl⟩ :=
      Comparison.ofText_eq_some.1 found
    refine ⟨[w], lead, w.markedText, trailing, blank_lead, blank_trailing, rfl, rfl, ?_, rfl,
      .last _⟩
    exact List.forall_mem_singleton.2 ⟨wf_w, _, List.mem_cons_self, lead, trailing, rfl⟩
  | @more parts part separator text isSeparator joined ih =>
    obtain ⟨c, others, found, more, rfl⟩ := readParts_cons_eq_ok h
    obtain ⟨w, lead, trailing, wf_w, rfl, blank_lead, blank_trailing, rfl⟩ :=
      Comparison.ofText_eq_some.1 found
    obtain ⟨left, right, blank_left, blank_right, rfl⟩ := isSeparator
    obtain ⟨ws, lead', body, trailing', blank_lead', blank_trailing', rfl, rfl, inside, size,
      joined'⟩ := ih more
    have wider : Text.IsSeparator symbol ((trailing ++ left) ++ symbol ++ (right ++ lead')) :=
      ⟨_, _, Text.blank_append.2 ⟨blank_trailing, blank_left⟩,
        Text.blank_append.2 ⟨blank_right, blank_lead'⟩, rfl⟩
    refine ⟨w :: ws, lead, _, trailing', blank_lead, blank_trailing', ?_, rfl, ?_, by simp [size],
      .more wider joined'⟩
    · simp only [List.append_assoc]
    · refine List.forall_mem_cons.2 ⟨⟨wf_w, _, List.mem_cons_self, lead, trailing, rfl⟩, ?_⟩
      intro v hv
      obtain ⟨wf_v, part', member, isInfix⟩ := inside v hv
      exact ⟨wf_v, part', List.mem_cons_of_mem _ member, isInfix⟩

/-- A group has at least two comparisons, since a single one is recognised before. -/
theorem exists_joined_of_readGroup {rule symbol : Text} {combinator : Combinator}
    (nonempty : symbol ≠ []) (visible : Stops Text.isBlank symbol)
    (noSingle : Comparison.ofText? rule = none)
    (h : (readGroup combinator symbol rule).decomposition.failed = false) :
    ∃ ws : List WrittenComparison, 2 ≤ ws.length ∧
      (∀ w ∈ ws, w.WellFormed ∧ ¬symbol <:+: w.markedText) ∧
      Joined symbol (ws.map WrittenComparison.markedText) (Text.trim rule) ∧
      (readGroup combinator symbol rule).decomposition =
        ⟨combinator, ws.map WrittenComparison.comparison⟩ := by
  unfold readGroup at h ⊢
  split at h
  case h_2 => cases h
  rename_i cs found
  have joined := Text.joined_partsBetween nonempty (Text.trim rule)
  have without := Text.not_hasPart_of_mem_splitFrom nonempty visible 0 (Text.trim rule)
  obtain ⟨ws, lead, body, trailing, blank_lead, blank_trailing, split, rfl, inside, size,
    joined'⟩ := exists_written_of_joined joined found
  have whole : body = Text.trim rule := by
    rw [← Text.trim_trim rule, split]
    exact (trim_of_joined (fun w hw => (inside w hw).1) blank_lead blank_trailing joined').symm
  refine ⟨ws, ?_, fun w hw => ?_, whole ▸ joined', rfl⟩
  · rcases joined.single_or_several with single | several
    · exfalso
      rw [single] at found
      obtain ⟨c, -, found', -, -⟩ := readParts_cons_eq_ok found
      rw [Comparison.ofText?, Text.trim_trim] at found'
      rw [Comparison.ofText?, found'] at noSingle
      cases noSingle
    · rw [size]
      exact several
  · obtain ⟨wf_w, part, member, isInfix⟩ := inside w hw
    refine ⟨wf_w, fun held => ?_⟩
    exact Text.hasPart_eq_false.1 (without part member) (held.trans isInfix)

theorem exists_isFlat {rule : Text} (h : (decompose rule).failed = false) :
    ∃ ws, IsFlat (decompose rule).combinator ws (Text.trim rule) ∧
      (decompose rule).comparisons = ws.map WrittenComparison.comparison := by
  unfold decompose read at h ⊢
  split at h
  case isTrue => cases h
  rw [if_neg ‹_›]
  cases single : Comparison.ofText? rule with
  | some c =>
    obtain ⟨w, lead, trailing, wellFormed, rfl, blank_lead, blank_trailing, rfl⟩ :=
      Comparison.ofText_eq_some.1 single
    refine ⟨[w], ?_, rfl⟩
    have alone : Joined [] ([w].map WrittenComparison.markedText) w.markedText := .last _
    rw [trim_of_joined (List.forall_mem_singleton.2 wellFormed) blank_lead blank_trailing alone]
    exact .single wellFormed
  | none =>
    rw [single] at h
    simp only at h ⊢
    split at h
    case isTrue =>
      rw [if_pos ‹_›]
      obtain ⟨ws, several, each, joined, same⟩ := exists_joined_of_readGroup
        (by decide : "&&".toList ≠ []) (Text.stops_cons.2 (by decide)) single h
      rw [same]
      exact ⟨ws, .all several each joined, rfl⟩
    case isFalse other =>
      rw [if_neg other]
      split at h
      case isFalse => cases h
      rw [if_pos ‹_›]
      obtain ⟨ws, several, each, joined, same⟩ := exists_joined_of_readGroup
        (by decide : "||".toList ≠ []) (Text.stops_cons.2 (by decide)) single h
      rw [same]
      have none : ∀ w ∈ ws, ¬"&&".toList <:+: w.markedText := by
        intro w hw held
        have inside := joined.isInfix_of_mem (List.mem_map_of_mem hw)
        exact other (Text.hasPart_eq_true.2 ((held.trans inside).trans (Text.isInfix_trim rule)))
      exact ⟨ws, .any several (fun w hw => ⟨(each w hw).1, none w hw, (each w hw).2⟩) joined, rfl⟩

/-- A rule that is decomposed is read as the condition that its decomposition stands for. -/
theorem exists_standsFor {rule : Text} (h : (decompose rule).failed = false) :
    ∃ t, (decompose rule).StandsFor t ∧ Condition.ofRule? rule = some t := by
  obtain ⟨ws, flat, same⟩ := exists_isFlat h
  obtain ⟨t, standsFor, read⟩ := flat.exists_standsFor
  rw [← same] at standsFor
  exact ⟨t, standsFor, read⟩

/-! ### Flat rules are decomposed -/

theorem readParts_markedText {ws : List WrittenComparison} (h : ∀ w ∈ ws, w.WellFormed) :
    readParts (ws.map WrittenComparison.markedText) =
      .ok (ws.map WrittenComparison.comparison) := by
  induction ws with
  | nil => rfl
  | cons w ws ih =>
    obtain ⟨first, others⟩ := List.forall_mem_cons.1 h
    have found : Comparison.ofText? w.markedText = some w.comparison :=
      Comparison.ofText_eq_some.2 ⟨w, [], [], first, rfl, Text.blank_nil, Text.blank_nil, by simp⟩
    rw [List.map_cons, readParts, found, ih others]
    rfl

/-- The text of a group is split at its operator, and nowhere else. -/
theorem readGroup_of_joined {combinator : Combinator} {s : Char} (operator : s ∈ ['&', '|'])
    {ws : List WrittenComparison} (wellFormed : ∀ w ∈ ws, w.WellFormed)
    (without : ∀ w ∈ ws, ¬[s, s] <:+: w.markedText) {rule : Text}
    (joined : Joined [s, s] (ws.map WrittenComparison.markedText) (Text.trim rule)) :
    readGroup combinator [s, s] rule = .group combinator (ws.map WrittenComparison.comparison) := by
  have kinds : ∀ s ∈ ['&', '|'], Text.isBlank s = false ∧ Text.isDigit s = false := by decide
  obtain ⟨visible, no_digit⟩ := kinds s operator
  have plain : ∀ part ∈ ws.map WrittenComparison.markedText, Text.Plain s part := by
    intro part member
    obtain ⟨w, inside, rfl⟩ := List.mem_map.1 member
    obtain ⟨c, last, digit⟩ := WrittenComparison.getLast_markedText (wellFormed w inside)
    refine ⟨Text.hasPart_eq_false.2 (without w inside), c, last,
      Text.not_isBlank_of_isDigit digit, ?_⟩
    rintro rfl
    rw [no_digit] at digit
    cases digit
  rw [readGroup, Text.partsBetween_eq_of_joined visible joined plain
    fun part member => (starts_markedText part member).2, readParts_markedText wellFormed]

theorem hasPart_of_joined {symbol rule : Text} {ws : List WrittenComparison}
    (several : 2 ≤ ws.length)
    (joined : Joined symbol (ws.map WrittenComparison.markedText) (Text.trim rule)) :
    Text.hasPart symbol rule = true :=
  Text.hasPart_eq_true.2 ((Text.hasPart_eq_true.1 (joined.hasPart (by simpa using several))).trans
    (Text.isInfix_trim rule))

/-- The operator of conjunctions is looked for first, also inside references. -/
theorem not_hasPart_of_joined {rule : Text} {ws : List WrittenComparison}
    (without : ∀ w ∈ ws, ¬"&&".toList <:+: w.markedText)
    (joined : Joined "||".toList (ws.map WrittenComparison.markedText) (Text.trim rule)) :
    Text.hasPart "&&".toList rule = false := by
  obtain ⟨lead, trailing, blank_lead, blank_trailing, split, -⟩ := Text.exists_trim_gaps rule
  have inside : Text.hasPart ['&', '&'] (Text.trim rule) = false := by
    refine joined.not_hasPart (by decide) (by decide) (by decide) fun part member => ?_
    obtain ⟨w, hw, rfl⟩ := List.mem_map.1 member
    exact Text.hasPart_eq_false.2 (without w hw)
  refine Bool.eq_false_iff.2 fun found => ?_
  have outer : Text.hasPart ['&', '&'] (lead ++ Text.trim rule ++ trailing) = true :=
    split ▸ found
  rw [Text.hasPart_of_gaps (by decide) blank_lead blank_trailing outer] at inside
  cases inside

theorem ofText?_eq_none {rule : Text} {t : Condition} (read : Condition.ofRule? rule = some t)
    (other : ∀ c, t ≠ .comparison c) : Comparison.ofText? rule = none := by
  cases found : Comparison.ofText? rule with
  | none => rfl
  | some c =>
    rw [ofRule?_of_ofText? found] at read
    exact absurd (Option.some.inj read).symm (other c)

theorem decompose_of_isFlat {k : Combinator} {ws : List WrittenComparison} {rule : Text}
    (h : IsFlat k ws (Text.trim rule)) :
    decompose rule = ⟨k, ws.map WrittenComparison.comparison⟩ := by
  obtain ⟨t, standsFor, parsed⟩ := h.exists_standsFor
  obtain ⟨tokens, tokenized, sentence⟩ := Condition.ofRule?_eq_some_iff.1 parsed
  have visible := Condition.not_blankOnly tokenized sentence.ne_nil
  rw [decompose, Decomposition.read, if_neg (by simp [visible])]
  generalize same : Text.trim rule = text at h
  cases h with
  | single wellFormed =>
    rw [ofText?_of_single wellFormed same]
    rfl
  | all several each joined =>
    subst same
    have noSingle : Comparison.ofText? rule = none :=
      ofText?_eq_none parsed (by cases standsFor; exact fun _ => nofun)
    have group : readGroup .and "&&".toList rule = _ :=
      readGroup_of_joined (by decide) (fun w hw => (each w hw).1) (fun w hw => (each w hw).2) joined
    rw [noSingle, hasPart_of_joined several joined, if_pos rfl, group]
    rfl
  | any several each joined =>
    subst same
    have noSingle : Comparison.ofText? rule = none :=
      ofText?_eq_none parsed (by cases standsFor; exact fun _ => nofun)
    have group : readGroup .or "||".toList rule = _ :=
      readGroup_of_joined (by decide) (fun w hw => (each w hw).1) (fun w hw => (each w hw).2.2)
        joined
    rw [noSingle, not_hasPart_of_joined (fun w hw => (each w hw).2.1) joined,
      if_neg Bool.false_ne_true, hasPart_of_joined several joined, if_pos rfl, group]
    rfl

end Decomposition

end ProgressRules

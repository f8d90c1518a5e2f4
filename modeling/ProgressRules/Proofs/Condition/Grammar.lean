import ProgressRules.Condition.Parse
import ProgressRules.Proofs.Condition.Layout

/-! The grammar of conditions over tokens, and the reader against it. The reader accepts a
sequence of tokens with a condition exactly if the grammar derives that condition, and a rule
if it is written by a layout with such tokens. -/

namespace ProgressRules.Condition

mutual

inductive IsOperand : Condition → List Token → Prop where
  | comparison (c : Comparison) (text : Text) : IsOperand (.comparison c) [.comparison c text]
  | negation {t : Condition} {tokens : List Token} :
      IsOperand t tokens → IsOperand (.not t) (.not :: tokens)
  | group {ts : List Condition} {tokens : List Token} :
      AreAlternatives ts tokens →
        IsOperand (disjunction ts) (.leftParen :: (tokens ++ [.rightParen]))

inductive AreFactors : List Condition → List Token → Prop where
  | one {t : Condition} {tokens : List Token} : IsOperand t tokens → AreFactors [t] tokens
  | more {t : Condition} {ts : List Condition} {tokens others : List Token} :
      IsOperand t tokens → AreFactors ts others → AreFactors (t :: ts) (tokens ++ .and :: others)

inductive AreAlternatives : List Condition → List Token → Prop where
  | one {ts : List Condition} {tokens : List Token} :
      AreFactors ts tokens → AreAlternatives [conjunction ts] tokens
  | more {ts us : List Condition} {tokens others : List Token} :
      AreFactors ts tokens → AreAlternatives us others →
        AreAlternatives (conjunction ts :: us) (tokens ++ .or :: others)

end

/-- The tokens are a sentence of the grammar that builds the condition. -/
def IsSentence (t : Condition) (tokens : List Token) : Prop :=
  ∃ ts, t = disjunction ts ∧ AreAlternatives ts tokens

/-! ### Sentences are read -/

theorem negated_not (n : Nat) (t : Condition) : negated n (.not t) = .not (negated n t) := by
  induction n with
  | zero => rfl
  | succ n ih => exact congrArg Condition.not ih

theorem push_not (level : Level) (t : Condition) :
    Level.push ⟨level.alternatives, level.factors, level.negations + 1⟩ t =
      level.push (.not t) := by
  simp [Level.push, negated, negated_not]

theorem run_cons {p q : Progress} {x : Token} (h : step p x = .ok q) (rest : List Token) :
    (x :: rest).foldlM step p = rest.foldlM step q := by
  rw [List.foldlM_cons, h]
  rfl

mutual

theorem run_operand {t : Condition} {tokens : List Token} (h : IsOperand t tokens)
    (outer : List Level) (level : Level) (rest : List Token) :
    (tokens ++ rest).foldlM step (.operandDue outer level) =
      rest.foldlM step (.operandDone outer (level.push t)) := by
  cases h with
  | comparison c text => exact run_cons rfl rest
  | @negation t tokens inner =>
    rw [List.cons_append, run_cons rfl, run_operand inner, push_not]
  | @group ts tokens inner =>
    obtain ⟨level', same, run⟩ := run_alternatives inner (level :: outer) [] (.rightParen :: rest)
    have condition : level'.condition = disjunction ts := by simp [Level.condition, same]
    rw [List.cons_append, run_cons rfl, List.append_assoc]
    refine run.trans ?_
    rw [run_cons rfl, condition]
-- of derivations for the same tokens those of operands come first
termination_by 3 * tokens.length

theorem run_factors {ts : List Condition} {tokens : List Token} (h : AreFactors ts tokens)
    (outer : List Level) (alternatives factors : List Condition) (rest : List Token) :
    (tokens ++ rest).foldlM step (.operandDue outer ⟨alternatives, factors, 0⟩) =
      rest.foldlM step (.operandDone outer ⟨alternatives, ts.reverse ++ factors, 0⟩) := by
  cases h with
  | one operand => exact run_operand operand outer _ rest
  | @more t ts tokens others operand more =>
    rw [List.append_assoc, run_operand operand, List.cons_append, run_cons rfl]
    simp only [Level.push, negated]
    rw [run_factors more, List.reverse_cons, List.append_assoc]
    rfl
termination_by 3 * tokens.length + 1

theorem run_alternatives {ts : List Condition} {tokens : List Token} (h : AreAlternatives ts tokens)
    (outer : List Level) (alternatives : List Condition) (rest : List Token) :
    ∃ level : Level, level.endAlternative.alternatives = ts.reverse ++ alternatives ∧
      (tokens ++ rest).foldlM step (.operandDue outer ⟨alternatives, [], 0⟩) =
        rest.foldlM step (.operandDone outer level) := by
  cases h with
  | one factors =>
    refine ⟨_, ?_, run_factors factors outer alternatives [] rest⟩
    simp [Level.endAlternative]
  | @more ts us tokens others factors more =>
    obtain ⟨level, same, run⟩ := run_alternatives more outer (conjunction ts :: alternatives) rest
    refine ⟨level, by simp [same], ?_⟩
    rw [List.append_assoc, run_factors factors, List.cons_append, run_cons rfl]
    simpa [Level.endAlternative] using run
termination_by 3 * tokens.length + 2
decreasing_by all_goals (subst_vars; simp; try omega)

end

theorem ofTokens_of_isSentence {t : Condition} {tokens : List Token} (h : IsSentence t tokens) :
    ofTokens tokens = .ok t := by
  obtain ⟨ts, rfl, derived⟩ := h
  obtain ⟨level, same, run⟩ := run_alternatives derived [] [] []
  have condition : level.condition = disjunction ts := by simp [Level.condition, same]
  rw [List.append_nil] at run
  rw [ofTokens]
  refine (congrArg (· >>= finish) run).trans ?_
  exact congrArg Except.ok condition

/-! ### What is read is a sentence -/

/-- The tokens of finished operands, each with the `&&` after it; the latest operand is first. -/
inductive FactorsBefore : List Condition → List Token → Prop where
  | none : FactorsBefore [] []
  | next {t : Condition} {ts : List Condition} {tokens others : List Token} :
      FactorsBefore ts tokens → IsOperand t others →
        FactorsBefore (t :: ts) (tokens ++ others ++ [.and])

inductive AlternativesBefore : List Condition → List Token → Prop where
  | none : AlternativesBefore [] []
  | next {ts us : List Condition} {tokens others : List Token} :
      AlternativesBefore us tokens → AreFactors ts others →
        AlternativesBefore (conjunction ts :: us) (tokens ++ others ++ [.or])

theorem FactorsBefore.append {ts us : List Condition} {tokens others : List Token}
    (before : FactorsBefore ts tokens) (h : AreFactors us others) :
    AreFactors (ts.reverse ++ us) (tokens ++ others) := by
  induction before generalizing us others with
  | none => exact h
  | @next t ts tokens more before operand ih =>
    have joined := ih (.more operand h)
    simpa using joined

theorem AlternativesBefore.append {ts us : List Condition} {tokens others : List Token}
    (before : AlternativesBefore ts tokens) (h : AreAlternatives us others) :
    AreAlternatives (ts.reverse ++ us) (tokens ++ others) := by
  induction before generalizing us others with
  | none => exact h
  | @next ts us tokens more before factors ih =>
    have joined := ih (.more factors h)
    simpa using joined

/-- The tokens of a level up to where its next operand is due. -/
def Level.ReadDue (level : Level) (tokens : List Token) : Prop :=
  ∃ front back, AlternativesBefore level.alternatives front ∧ FactorsBefore level.factors back ∧
    tokens = front ++ back ++ List.replicate level.negations .not

def Level.ReadDone (level : Level) (tokens : List Token) : Prop :=
  ∃ front back last t ts, AlternativesBefore level.alternatives front ∧ FactorsBefore ts back ∧
    IsOperand t last ∧ level.factors = t :: ts ∧ level.negations = 0 ∧
    tokens = front ++ back ++ last

inductive OuterRead : List Level → List Token → Prop where
  | none : OuterRead [] []
  | next {level : Level} {outer : List Level} {tokens others : List Token} :
      OuterRead outer tokens → level.ReadDue others →
        OuterRead (level :: outer) (tokens ++ others ++ [.leftParen])

def Progress.Read : Progress → List Token → Prop
  | .operandDue outer level, tokens =>
    ∃ front back, OuterRead outer front ∧ level.ReadDue back ∧ tokens = front ++ back
  | .operandDone outer level, tokens =>
    ∃ front back, OuterRead outer front ∧ level.ReadDone back ∧ tokens = front ++ back

theorem Level.start_readDue : Level.start.ReadDue [] :=
  ⟨[], [], .none, .none, rfl⟩

theorem isOperand_negated {t : Condition} {tokens : List Token} (h : IsOperand t tokens) (n : Nat) :
    IsOperand (negated n t) (List.replicate n .not ++ tokens) := by
  induction n with
  | zero => exact h
  | succ n ih => exact .negation ih

theorem Level.ReadDue.push {level : Level} {t : Condition} {tokens others : List Token}
    (h : level.ReadDue tokens) (operand : IsOperand t others) :
    (level.push t).ReadDone (tokens ++ others) := by
  obtain ⟨front, back, alternatives, factors, rfl⟩ := h
  refine ⟨front, back, _, _, _, alternatives, factors,
    isOperand_negated operand level.negations, rfl, rfl, ?_⟩
  simp

theorem Level.ReadDone.areFactors {level : Level} {tokens : List Token}
    (h : level.ReadDone tokens) :
    ∃ front back, AlternativesBefore level.alternatives front ∧
      AreFactors level.factors.reverse back ∧ tokens = front ++ back := by
  obtain ⟨front, back, last, t, ts, alternatives, factors, operand, same, -, rfl⟩ := h
  refine ⟨front, back ++ last, alternatives, ?_, by simp⟩
  rw [same, List.reverse_cons]
  exact factors.append (.one operand)

theorem Level.ReadDone.and {level : Level} {tokens : List Token} (h : level.ReadDone tokens) :
    level.ReadDue (tokens ++ [.and]) := by
  obtain ⟨front, back, last, t, ts, alternatives, factors, operand, same, none, rfl⟩ := h
  refine ⟨front, back ++ last ++ [.and], alternatives, ?_, ?_⟩
  · rw [same]
    exact .next factors operand
  · simp [none]

theorem Level.ReadDone.or {level : Level} {tokens : List Token} (h : level.ReadDone tokens) :
    level.endAlternative.ReadDue (tokens ++ [.or]) := by
  obtain ⟨front, back, alternatives, factors, rfl⟩ := h.areFactors
  have next : AlternativesBefore level.endAlternative.alternatives (front ++ back ++ [.or]) :=
    .next alternatives factors
  exact ⟨_, [], next, .none, by simp [endAlternative]⟩

theorem Level.ReadDone.areAlternatives {level : Level} {tokens : List Token}
    (h : level.ReadDone tokens) :
    AreAlternatives level.endAlternative.alternatives.reverse tokens := by
  obtain ⟨front, back, alternatives, factors, rfl⟩ := h.areFactors
  simpa [endAlternative] using alternatives.append (.one factors)

/-- One step keeps account of the token that it passes. -/
theorem step_read {p q : Progress} {x : Token} {tokens : List Token} (h : step p x = .ok q)
    (read : p.Read tokens) : q.Read (tokens ++ [x]) := by
  unfold step at h
  split at h
  -- the equations of `step` in their order; the fourth and the last two are errors
  case h_1 outer level =>
    cases h
    obtain ⟨front, back, hfront, ⟨a, b, ha, hb, rfl⟩, rfl⟩ := read
    refine ⟨front, _, hfront, ⟨a, b, ha, hb, rfl⟩, ?_⟩
    simp [List.replicate_succ']
  case h_2 outer level =>
    cases h
    obtain ⟨front, back, hfront, hback, rfl⟩ := read
    exact ⟨_, [], .next hfront hback, Level.start_readDue, by simp⟩
  case h_3 outer level c text =>
    cases h
    obtain ⟨front, back, hfront, hback, rfl⟩ := read
    exact ⟨front, _, hfront, hback.push (.comparison c text), by simp⟩
  case h_4 => cases h
  case h_5 outer level =>
    cases h
    obtain ⟨front, back, hfront, hback, rfl⟩ := read
    exact ⟨front, _, hfront, hback.and, by simp⟩
  case h_6 outer level =>
    cases h
    obtain ⟨front, back, hfront, hback, rfl⟩ := read
    exact ⟨front, _, hfront, hback.or, by simp⟩
  case h_7 around outer level =>
    cases h
    obtain ⟨front, back, hfront, hback, rfl⟩ := read
    cases hfront with
    | @next _ _ tokens others hfront around_read =>
      refine ⟨tokens, _, hfront, around_read.push (.group hback.areAlternatives), ?_⟩
      simp
  case h_8 => cases h
  case h_9 => cases h

theorem run_read {tokens : List Token} {p q : Progress} {passed : List Token}
    (h : tokens.foldlM step p = .ok q) (read : p.Read passed) : q.Read (passed ++ tokens) := by
  induction tokens generalizing p passed with
  | nil =>
    cases h
    simpa using read
  | cons x tokens ih =>
    cases hx : step p x with
    | error e =>
      rw [List.foldlM_cons, hx] at h
      cases h
    | ok p' =>
      rw [run_cons hx] at h
      have := ih h (step_read hx read)
      simpa using this

theorem exists_run {t : Condition} {tokens : List Token} (h : ofTokens tokens = .ok t) :
    ∃ p, tokens.foldlM step (.operandDue [] .start) = .ok p ∧ finish p = .ok t := by
  unfold ofTokens at h
  cases run : tokens.foldlM step (.operandDue [] .start) with
  | error e =>
    rw [run] at h
    cases h
  | ok p =>
    rw [run] at h
    exact ⟨p, rfl, h⟩

theorem ofTokens_eq_ok {t : Condition} {tokens : List Token} :
    ofTokens tokens = .ok t ↔ IsSentence t tokens := by
  refine ⟨fun h => ?_, ofTokens_of_isSentence⟩
  obtain ⟨p, run, finished⟩ := exists_run h
  have read := run_read run ⟨[], [], .none, Level.start_readDue, rfl⟩
  cases p with
  | operandDue outer level => cases finished
  | operandDone outer level =>
    cases outer with
    | cons => cases finished
    | nil =>
      cases finished
      obtain ⟨front, back, hfront, hback, same⟩ := read
      cases hfront
      rw [List.nil_append, List.nil_append] at same
      exact ⟨_, rfl, same ▸ hback.areAlternatives⟩

/-! ### Rules -/

theorem parse_eq_ok {rule : Text} {t : Condition} :
    parse rule = .ok t ↔ ∃ tokens, tokenize rule = .ok tokens ∧ ofTokens tokens = .ok t := by
  unfold parse
  cases tokenize rule with
  | error e =>
    constructor
    · intro h
      cases h
    · rintro ⟨tokens, h, -⟩
      cases h
  | ok tokens =>
    constructor
    · intro h
      exact ⟨tokens, rfl, h⟩
    · rintro ⟨_, h, read⟩
      cases h
      exact read

theorem toOption_eq_some {ε α : Type} {x : Except ε α} {a : α} :
    x.toOption = some a ↔ x = .ok a := by
  cases x <;> simp [Except.toOption]

theorem AreFactors.ne_nil {ts : List Condition} {tokens : List Token} (h : AreFactors ts tokens) :
    tokens ≠ [] := by
  cases h with
  | one operand => cases operand <;> simp
  | more => simp

theorem IsSentence.ne_nil {t : Condition} {tokens : List Token} (h : IsSentence t tokens) :
    tokens ≠ [] := by
  obtain ⟨ts, -, alternatives⟩ := h
  cases alternatives with
  | one factors => exact factors.ne_nil
  | more => simp

theorem not_blankOnly {rule : Text} {tokens : List Token} (h : tokenize rule = .ok tokens)
    (nonempty : tokens ≠ []) : Text.blankOnly rule = false := by
  obtain ⟨lead, layout, -, -, rfl, rfl⟩ := Layout.tokenize_eq_ok.1 h
  refine Layout.ruleText_not_blankOnly ?_ lead
  rintro rfl
  exact nonempty rfl

theorem ofRule?_eq_some_iff {rule : Text} {t : Condition} :
    ofRule? rule = some t ↔ ∃ tokens, tokenize rule = .ok tokens ∧ IsSentence t tokens := by
  unfold ofRule?
  constructor
  · intro h
    split at h
    · cases h
    · obtain ⟨tokens, read, sentence⟩ := parse_eq_ok.1 (toOption_eq_some.1 h)
      exact ⟨tokens, read, ofTokens_eq_ok.1 sentence⟩
  · rintro ⟨tokens, read, sentence⟩
    rw [if_neg (by simp [not_blankOnly read sentence.ne_nil])]
    exact toOption_eq_some.2 (parse_eq_ok.2 ⟨tokens, read, ofTokens_eq_ok.2 sentence⟩)

theorem ofRule?_iff_layout {rule : Text} {t : Condition} :
    ofRule? rule = some t ↔ ∃ (lead : Text) (layout : Layout), Text.Blank lead ∧
      layout.WellFormed ∧ rule = lead ++ layout.ruleText ∧ IsSentence t layout.tokens := by
  rw [ofRule?_eq_some_iff]
  constructor
  · rintro ⟨tokens, read, sentence⟩
    obtain ⟨lead, layout, blank, wellFormed, split, rfl⟩ := Layout.tokenize_eq_ok.1 read
    exact ⟨lead, layout, blank, wellFormed, split, sentence⟩
  · rintro ⟨lead, layout, blank, wellFormed, split, sentence⟩
    exact ⟨_, Layout.tokenize_eq_ok.2 ⟨lead, layout, blank, wellFormed, split, rfl⟩, sentence⟩

end ProgressRules.Condition

import ProgressRules.Proofs.Condition.Grammar

/-! What the tokens of a sentence say about its condition. Operands and operators alternate, the
comparisons of the condition are those of the tokens in the same order, and a change to the
comparisons of the tokens is a change to those of the condition. -/

namespace ProgressRules

namespace Token

/-- Where an operand is due, and where one has just ended, only some tokens may stand. -/
def Alternate : (due : Bool) → List Token → Prop
  | _, [] => True
  | true, .comparison .. :: tokens => Alternate false tokens
  | true, .not :: tokens | true, .leftParen :: tokens => Alternate true tokens
  | false, .and :: tokens | false, .or :: tokens => Alternate true tokens
  | false, .rightParen :: tokens => Alternate false tokens
  | _, _ => False

def comparison? : Token → Option Comparison
  | .comparison c _ => some c
  | _ => none

inductive Changed (f : Comparison → Comparison) : Token → Token → Prop where
  | comparison (c : Comparison) (text text' : Text) :
      Changed f (.comparison c text) (.comparison (f c) text')
  | same (x : Token) (other : x.comparison? = none) : Changed f x x

end Token

namespace Condition

mutual

def map (f : Comparison → Comparison) : Condition → Condition
  | .comparison c => .comparison (f c)
  | .and children => .and (mapAll f children)
  | .or children => .or (mapAll f children)
  | .not child => .not (map f child)

def mapAll (f : Comparison → Comparison) : List Condition → List Condition
  | [] => []
  | child :: children => map f child :: mapAll f children

end

mutual

/-- Groups have at least two operands, and the comparisons have a property. -/
def IsRegular (p : Comparison → Prop) : Condition → Prop
  | .comparison c => p c
  | .and children => 2 ≤ children.length ∧ AllRegular p children
  | .or children => 2 ≤ children.length ∧ AllRegular p children
  | .not child => IsRegular p child

def AllRegular (p : Comparison → Prop) : List Condition → Prop
  | [] => True
  | child :: children => IsRegular p child ∧ AllRegular p children

end

mutual

theorem IsRegular.of_mem {p : Comparison → Prop} {t : Condition} (regular : t.IsRegular p) :
    ∀ c ∈ t.comparisons, p c := by
  match t with
  | .comparison c => exact List.forall_mem_singleton.2 regular
  | .and _ | .or _ => exact regular.2.of_mem
  | .not child =>
    have inside : child.IsRegular p := regular
    exact inside.of_mem

theorem AllRegular.of_mem {p : Comparison → Prop} {ts : List Condition}
    (regular : AllRegular p ts) : ∀ c ∈ comparisonsOfAll ts, p c := by
  match ts with
  | [] => exact fun _ => nofun
  | t :: ts => exact List.forall_mem_append.2 ⟨regular.1.of_mem, regular.2.of_mem⟩

end

/-! ### Alternation -/

def Progress.due : Progress → Bool
  | .operandDue .. => true
  | .operandDone .. => false

theorem step_alternate {p q : Progress} {x : Token} (h : step p x = .ok q) {rest : List Token}
    (more : Token.Alternate q.due rest) : Token.Alternate p.due (x :: rest) := by
  unfold step at h
  split at h <;> first | cases h; exact more | cases h

theorem run_alternate {tokens : List Token} {p q : Progress} (h : tokens.foldlM step p = .ok q) :
    Token.Alternate p.due tokens := by
  induction tokens generalizing p with
  | nil => cases p <;> trivial
  | cons x tokens ih =>
    cases hx : step p x with
    | error e =>
      rw [List.foldlM_cons, hx] at h
      cases h
    | ok p' =>
      rw [run_cons hx] at h
      exact step_alternate hx (ih h)

theorem IsSentence.alternate {t : Condition} {tokens : List Token} (h : IsSentence t tokens) :
    Token.Alternate true tokens := by
  obtain ⟨p, run, -⟩ := exists_run (ofTokens_eq_ok.2 h)
  exact run_alternate run

/-! ### Comparisons -/

theorem comparisons_conjunction (ts : List Condition) :
    (conjunction ts).comparisons = comparisonsOfAll ts := by
  unfold conjunction
  split
  · simp [comparisonsOfAll]
  · rw [comparisons]

theorem comparisons_disjunction (ts : List Condition) :
    (disjunction ts).comparisons = comparisonsOfAll ts := by
  unfold disjunction
  split
  · simp [comparisonsOfAll]
  · rw [comparisons]

mutual

theorem IsOperand.comparisons_eq {t : Condition} {tokens : List Token} (h : IsOperand t tokens) :
    t.comparisons = tokens.filterMap Token.comparison? := by
  cases h with
  | comparison c text => rfl
  | @negation t tokens inner =>
    rw [comparisons, inner.comparisons_eq]
    rfl
  | @group ts tokens inner =>
    rw [comparisons_disjunction, inner.comparisons_eq, List.filterMap_cons_none rfl]
    simp [Token.comparison?]
termination_by 3 * tokens.length

theorem AreFactors.comparisons_eq {ts : List Condition} {tokens : List Token}
    (h : AreFactors ts tokens) : comparisonsOfAll ts = tokens.filterMap Token.comparison? := by
  cases h with
  | one operand => simp [comparisonsOfAll, operand.comparisons_eq]
  | @more t ts tokens others operand more =>
    rw [comparisonsOfAll, operand.comparisons_eq, more.comparisons_eq, List.filterMap_append]
    rfl
termination_by 3 * tokens.length + 1

theorem AreAlternatives.comparisons_eq {ts : List Condition} {tokens : List Token}
    (h : AreAlternatives ts tokens) : comparisonsOfAll ts = tokens.filterMap Token.comparison? := by
  cases h with
  | one factors => simp [comparisonsOfAll, comparisons_conjunction, factors.comparisons_eq]
  | @more ts us tokens others factors more =>
    rw [comparisonsOfAll, comparisons_conjunction, factors.comparisons_eq, more.comparisons_eq,
      List.filterMap_append]
    rfl
termination_by 3 * tokens.length + 2
decreasing_by all_goals (subst_vars; simp; try omega)

end

theorem IsSentence.comparisons_eq {t : Condition} {tokens : List Token} (h : IsSentence t tokens) :
    t.comparisons = tokens.filterMap Token.comparison? := by
  obtain ⟨ts, rfl, alternatives⟩ := h
  rw [comparisons_disjunction, alternatives.comparisons_eq]

/-! ### Regularity -/

section

variable {p : Comparison → Prop}

theorem isRegular_conjunction {ts : List Condition} (nonempty : ts ≠ []) (h : AllRegular p ts) :
    IsRegular p (conjunction ts) := by
  match ts, nonempty, h with
  | [t], _, h => exact h.1
  | t :: u :: ts, _, h => exact ⟨by simp, h⟩

theorem isRegular_disjunction {ts : List Condition} (nonempty : ts ≠ []) (h : AllRegular p ts) :
    IsRegular p (disjunction ts) := by
  match ts, nonempty, h with
  | [t], _, h => exact h.1
  | t :: u :: ts, _, h => exact ⟨by simp, h⟩

def AllTokens (p : Comparison → Prop) (tokens : List Token) : Prop :=
  ∀ c text, .comparison c text ∈ tokens → p c

theorem allTokens_append {a b : List Token} (h : AllTokens p (a ++ b)) :
    AllTokens p a ∧ AllTokens p b :=
  ⟨fun c text member => h c text (List.mem_append_left _ member),
    fun c text member => h c text (List.mem_append_right _ member)⟩

theorem allTokens_tail {x : Token} {tokens : List Token} (h : AllTokens p (x :: tokens)) :
    AllTokens p tokens :=
  fun c text member => h c text (List.mem_cons_of_mem _ member)

mutual

theorem IsOperand.isRegular {t : Condition} {tokens : List Token} (h : IsOperand t tokens)
    (all : AllTokens p tokens) : t.IsRegular p := by
  cases h with
  | comparison c text => exact all c text List.mem_cons_self
  | @negation t tokens inner => exact inner.isRegular (allTokens_tail all)
  | @group ts tokens inner =>
    obtain ⟨nonempty, regular⟩ := inner.isRegular (allTokens_append (allTokens_tail all)).1
    exact isRegular_disjunction nonempty regular
termination_by 3 * tokens.length

theorem AreFactors.isRegular {ts : List Condition} {tokens : List Token}
    (h : AreFactors ts tokens) (all : AllTokens p tokens) : ts ≠ [] ∧ AllRegular p ts := by
  cases h with
  | one operand => exact ⟨by simp, operand.isRegular all, trivial⟩
  | @more t ts tokens others operand more =>
    obtain ⟨first, rest⟩ := allTokens_append all
    exact ⟨by simp, operand.isRegular first, (more.isRegular (allTokens_tail rest)).2⟩
termination_by 3 * tokens.length + 1

theorem AreAlternatives.isRegular {ts : List Condition} {tokens : List Token}
    (h : AreAlternatives ts tokens) (all : AllTokens p tokens) : ts ≠ [] ∧ AllRegular p ts := by
  cases h with
  | one factors =>
    obtain ⟨nonempty, regular⟩ := factors.isRegular all
    exact ⟨by simp, isRegular_conjunction nonempty regular, trivial⟩
  | @more ts us tokens others factors more =>
    obtain ⟨first, rest⟩ := allTokens_append all
    obtain ⟨nonempty, regular⟩ := factors.isRegular first
    exact ⟨by simp, isRegular_conjunction nonempty regular,
      (more.isRegular (allTokens_tail rest)).2⟩
termination_by 3 * tokens.length + 2
decreasing_by all_goals (subst_vars; simp; try omega)

end

theorem IsSentence.isRegular {t : Condition} {tokens : List Token} (h : IsSentence t tokens)
    (all : AllTokens p tokens) : t.IsRegular p := by
  obtain ⟨ts, rfl, alternatives⟩ := h
  obtain ⟨nonempty, regular⟩ := alternatives.isRegular all
  exact isRegular_disjunction nonempty regular

end

/-- The comparisons of a rule are written in it. -/
theorem isRegular_of_ofRule? {rule : Text} {t : Condition} (h : ofRule? rule = some t) :
    t.IsRegular Comparison.IsWritten := by
  obtain ⟨lead, layout, -, wellFormed, -, sentence⟩ := ofRule?_iff_layout.1 h
  refine sentence.isRegular fun c text member => ?_
  obtain ⟨⟨x, gap⟩, inside, same⟩ := List.mem_map.1 member
  cases x with
  | comparison w => exact ⟨w, (wellFormed _ inside).1, (Token.comparison.inj same).1⟩
  | _ => cases same

/-! ### Changed comparisons -/

theorem mapAll_eq_map (f : Comparison → Comparison) (ts : List Condition) :
    mapAll f ts = ts.map (map f) := by
  induction ts with
  | nil => rfl
  | cons t ts ih => simp [mapAll, ih]

theorem map_conjunction (f : Comparison → Comparison) (ts : List Condition) :
    map f (conjunction ts) = conjunction (ts.map (map f)) := by
  match ts with
  | [] => rfl
  | [t] => rfl
  | t :: u :: ts => simp [conjunction, map, mapAll_eq_map]

theorem map_disjunction (f : Comparison → Comparison) (ts : List Condition) :
    map f (disjunction ts) = disjunction (ts.map (map f)) := by
  match ts with
  | [] => rfl
  | [t] => rfl
  | t :: u :: ts => simp [disjunction, map, mapAll_eq_map]

theorem map_negated (f : Comparison → Comparison) (n : Nat) (t : Condition) :
    map f (negated n t) = negated n (map f t) := by
  induction n with
  | zero => rfl
  | succ n ih => rw [negated, map, ih, negated]

def Level.map (f : Comparison → Comparison) (level : Level) : Level :=
  ⟨level.alternatives.map (Condition.map f), level.factors.map (Condition.map f), level.negations⟩

def Progress.map (f : Comparison → Comparison) : Progress → Progress
  | .operandDue outer level => .operandDue (outer.map (Level.map f)) (level.map f)
  | .operandDone outer level => .operandDone (outer.map (Level.map f)) (level.map f)

theorem Level.map_push (f : Comparison → Comparison) (level : Level) (t : Condition) :
    (level.push t).map f = (level.map f).push (t.map f) := by
  simp [push, Level.map, map_negated]

theorem Level.map_endAlternative (f : Comparison → Comparison) (level : Level) :
    level.endAlternative.map f = (level.map f).endAlternative := by
  simp [endAlternative, Level.map, map_conjunction]

theorem Level.map_condition (f : Comparison → Comparison) (level : Level) :
    level.condition.map f = (level.map f).condition := by
  rw [condition, condition, map_disjunction, ← map_endAlternative]
  simp [Level.map]

theorem step_map {f : Comparison → Comparison} {p q : Progress} {x y : Token}
    (h : step p x = .ok q) (changed : x.Changed f y) : step (p.map f) y = .ok (q.map f) := by
  cases changed with
  | comparison c text text' =>
    cases p with
    | operandDue outer level =>
      cases h
      rw [Progress.map, Progress.map, Level.map_push]
      rfl
    | operandDone outer level => cases outer <;> cases h
  | same other =>
    unfold step at h
    split at h
    -- a token that is kept is no comparison, and errors are no steps
    case h_3 other => cases other
    case h_4 => cases h
    case h_8 => cases h
    case h_9 => cases h
    all_goals
      cases h
      simp [step, Progress.map, Level.map_push, Level.map_endAlternative, Level.map_condition]
    · rfl
    · rfl

theorem run_map {α : Type} {f : Comparison → Comparison} {token token' : α → Token}
    {items : List α} (changed : ∀ item ∈ items, (token item).Changed f (token' item))
    {p q : Progress} (h : (items.map token).foldlM step p = .ok q) :
    (items.map token').foldlM step (p.map f) = .ok (q.map f) := by
  induction items generalizing p with
  | nil =>
    cases h
    rfl
  | cons item items ih =>
    obtain ⟨first, others⟩ := List.forall_mem_cons.1 changed
    rw [List.map_cons] at h ⊢
    cases hx : step p (token item) with
    | error e =>
      rw [List.foldlM_cons, hx] at h
      cases h
    | ok p' =>
      rw [run_cons hx] at h
      rw [run_cons (step_map hx first)]
      exact ih others h

theorem finish_map {f : Comparison → Comparison} {p : Progress} {t : Condition}
    (h : finish p = .ok t) : finish (p.map f) = .ok (t.map f) := by
  unfold finish at h
  split at h <;> cases h
  simp [finish, Progress.map, Level.map_condition]

theorem IsSentence.map {α : Type} {f : Comparison → Comparison} {token token' : α → Token}
    {items : List α} (changed : ∀ item ∈ items, (token item).Changed f (token' item))
    {t : Condition} (h : IsSentence t (items.map token)) :
    IsSentence (t.map f) (items.map token') := by
  obtain ⟨p, run, finished⟩ := exists_run (ofTokens_eq_ok.2 h)
  refine ofTokens_eq_ok.1 ?_
  unfold ofTokens
  have run' : (items.map token').foldlM step (.operandDue [] .start) = .ok (p.map f) :=
    run_map changed run
  rw [run']
  exact finish_map finished

end Condition

end ProgressRules

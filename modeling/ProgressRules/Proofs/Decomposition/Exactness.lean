import ProgressRules.Proofs.Decomposition.Flat

/-! Decomposition accepts exactly the flat rules, and tells the combinator of every other rule
by the operator that it holds. -/

namespace ProgressRules

namespace Decomposition

open Text (Joined)

theorem IsFlat.ne_nil {k : Combinator} {ws : List WrittenComparison} {text : Text}
    (h : IsFlat k ws text) : ws ≠ [] := by
  cases h with
  | single => exact List.cons_ne_nil _ _
  | all several | any several => exact List.ne_nil_of_length_pos (by omega)

theorem IsFlat.combinator_eq_none {k : Combinator} {ws : List WrittenComparison} {text : Text}
    (h : IsFlat k ws text) : k = .none ↔ ws.length = 1 := by
  cases h with
  | single => exact ⟨fun _ => rfl, fun _ => rfl⟩
  | all several | any several => exact ⟨nofun, fun one => by omega⟩

/-! ### The tokens of flat rules -/

theorem kind_of_mem_joined {x : Lexeme} {ws : List WrittenComparison} {token : Token}
    (member : token ∈ (x.joined ws).map Lexeme.token) :
    token.kind = x.token.kind ∨ token.kind = .comparison := by
  induction ws with
  | nil => cases member
  | cons w ws ih =>
    cases ws with
    | nil =>
      obtain rfl := List.mem_singleton.1 member
      exact .inr rfl
    | cons v ws =>
      rw [Lexeme.joined_cons, List.map_cons, List.map_cons, List.mem_cons, List.mem_cons] at member
      rcases member with rfl | rfl | member
      · exact .inr rfl
      · exact .inl rfl
      · exact ih member

/-- One operator stands between the comparisons, and no other sign stands anywhere. -/
theorem IsFlat.exists_kind {k : Combinator} {ws : List WrittenComparison} {rule : Text}
    (h : IsFlat k ws (Text.trim rule)) {tokens : List Token} (read : tokenize rule = .ok tokens) :
    ∃ kind : Token.Kind, (kind = .and ∨ kind = .or) ∧
      ∀ token ∈ tokens, token.kind = kind ∨ token.kind = .comparison := by
  obtain ⟨x, operator, read'⟩ := h.exists_tokens
  rw [read] at read'
  cases read'
  refine ⟨x.token.kind, ?_, fun token member => kind_of_mem_joined member⟩
  rcases operator with rfl | rfl
  · exact .inl rfl
  · exact .inr rfl

/-- The rule is negated, has parentheses or mixes the operators. -/
def IsNested (tokens : List Token) : Prop :=
  .not ∈ tokens ∨ .leftParen ∈ tokens ∨ .rightParen ∈ tokens ∨ (.and ∈ tokens ∧ .or ∈ tokens)

theorem IsFlat.not_isNested {k : Combinator} {ws : List WrittenComparison} {rule : Text}
    (h : IsFlat k ws (Text.trim rule)) {tokens : List Token} (read : tokenize rule = .ok tokens) :
    ¬IsNested tokens := by
  obtain ⟨kind, operator, each⟩ := h.exists_kind read
  rintro (held | held | held | ⟨held, other⟩)
  · rcases operator with rfl | rfl <;> rcases each _ held with same | same <;> cases same
  · rcases operator with rfl | rfl <;> rcases each _ held with same | same <;> cases same
  · rcases operator with rfl | rfl <;> rcases each _ held with same | same <;> cases same
  · rcases operator with rfl | rfl
    · rcases each _ other with same | same <;> cases same
    · rcases each _ held with same | same <;> cases same

/-! ### Rules that are not flat -/

theorem combinator_readGroup (combinator : Combinator) (symbol rule : Text) :
    (readGroup combinator symbol rule).decomposition.combinator = combinator := by
  unfold readGroup
  split <;> rfl

/-- The operators are looked for one after the other, also inside references. -/
theorem combinator_of_failed {rule : Text} (visible : Text.blankOnly rule = false)
    (failed : (decompose rule).comparisons = []) : (decompose rule).combinator =
      if Text.hasPart "&&".toList rule then .and
      else if Text.hasPart "||".toList rule then .or else .none := by
  rw [decompose, read, if_neg (by simp [visible])] at failed ⊢
  cases single : Comparison.ofText? rule with
  | some c =>
    rw [single] at failed
    cases failed
  | none =>
    simp only
    split
    · exact combinator_readGroup _ _ _
    · split
      · exact combinator_readGroup _ _ _
      · rfl

/-! ### Exactness -/

theorem exists_isFlat_of_ne_nil {rule : Text} (nonempty : (decompose rule).comparisons ≠ []) :
    ∃ ws, IsFlat (decompose rule).combinator ws (Text.trim rule) ∧
      (decompose rule).comparisons = ws.map WrittenComparison.comparison :=
  exists_isFlat (by simpa [failed] using nonempty)

theorem comparisons_eq_nil {rule : Text} (h : ∀ k ws, ¬IsFlat k ws (Text.trim rule)) :
    (decompose rule).comparisons = [] := by
  refine Decidable.byContradiction fun nonempty => ?_
  obtain ⟨ws, flat, -⟩ := exists_isFlat_of_ne_nil nonempty
  exact h _ _ flat

/-- A rule is decomposed exactly if it is flat, and then into all its comparisons in order. A
rule that is not flat has no comparisons, and the combinator of the operator that it holds. -/
theorem decompose_exact :
    (∀ rule k cs, cs ≠ [] → (decompose rule = ⟨k, cs⟩ ↔
      ∃ ws, IsFlat k ws (Text.trim rule) ∧ cs = ws.map WrittenComparison.comparison)) ∧
    (∀ rule, Text.blankOnly rule = false → (∀ k ws, ¬IsFlat k ws (Text.trim rule)) →
      ("&&".toList <:+: rule → decompose rule = ⟨.and, []⟩) ∧
      (¬"&&".toList <:+: rule → "||".toList <:+: rule → decompose rule = ⟨.or, []⟩) ∧
      (¬"&&".toList <:+: rule → ¬"||".toList <:+: rule → decompose rule = ⟨.none, []⟩)) ∧
    (∀ rule, Text.blankOnly rule = true → decompose rule = ⟨.none, []⟩) ∧
    (∀ rule tokens, tokenize rule = .ok tokens → IsNested tokens →
      (decompose rule).comparisons = []) ∧
    ∀ rule, (decompose rule).comparisons ≠ [] →
      ((decompose rule).combinator = .none ↔ (decompose rule).comparisons.length = 1) := by
  refine ⟨fun rule k cs nonempty => ⟨fun read => ?_, ?_⟩, fun rule visible other => ?_,
    fun rule blank => ?_, fun rule tokens read nested => ?_, fun rule nonempty => ?_⟩
  · have recognised : (decompose rule).comparisons ≠ [] := read ▸ nonempty
    have flat := exists_isFlat_of_ne_nil recognised
    rw [read] at flat
    exact flat
  · rintro ⟨ws, flat, rfl⟩
    exact decompose_of_isFlat flat
  · have none := comparisons_eq_nil other
    have combinator := combinator_of_failed visible none
    have whole : decompose rule = ⟨(decompose rule).combinator, []⟩ := by rw [← none]
    rw [whole, combinator]
    refine ⟨fun held => ?_, fun without held => ?_, fun without without' => ?_⟩
    · rw [if_pos (Text.hasPart_eq_true.2 held)]
    · rw [if_neg (mt Text.hasPart_eq_true.1 without), if_pos (Text.hasPart_eq_true.2 held)]
    · rw [if_neg (mt Text.hasPart_eq_true.1 without), if_neg (mt Text.hasPart_eq_true.1 without')]
  · rw [decompose, Decomposition.read, if_pos blank]
    rfl
  · exact comparisons_eq_nil fun k ws flat => flat.not_isNested read nested
  · obtain ⟨ws, flat, same⟩ := exists_isFlat_of_ne_nil nonempty
    rw [flat.combinator_eq_none, same, List.length_map]

end Decomposition

namespace Sample

/-- Written as `#stats['a || b']<=1`. -/
def either : WrittenComparison :=
  ⟨⟨"stats".toList, [.key "a || b".toList]⟩, [], .le, [], ⟨"1".toList, []⟩⟩

theorem either_wellFormed : either.WellFormed where
  reference := ⟨⟨by decide, by decide⟩, List.forall_mem_singleton.2 ⟨by decide, by decide⟩⟩
  left := Text.blank_nil
  operator := fun _ => nofun
  right := Text.blank_nil
  number := ⟨⟨by decide, by decide⟩, by decide⟩

end Sample

open Sample in
theorem decompose_operators_in_keys :
    decompose " #stats['a || b']<=1\t&&#stats['a || b']<=1 ".toList =
      ⟨.and, [either.comparison, either.comparison]⟩ := by
  have trimmed : Text.trim " #stats['a || b']<=1\t&&#stats['a || b']<=1 ".toList =
      either.markedText ++ "\t&&".toList ++ either.markedText := by decide +kernel
  have separator : Text.IsSeparator "&&".toList "\t&&".toList :=
    ⟨"\t".toList, [], Text.blank_cons.2 ⟨by decide, Text.blank_nil⟩, Text.blank_nil, rfl⟩
  have plain : ∀ w ∈ [either, either], w.WellFormed ∧ ¬"&&".toList <:+: w.markedText := by
    have each : either.WellFormed ∧ ¬"&&".toList <:+: either.markedText :=
      ⟨either_wellFormed, Text.hasPart_eq_false.1 (by decide)⟩
    exact List.forall_mem_cons.2 ⟨each, List.forall_mem_singleton.2 each⟩
  refine (Decomposition.decompose_exact.1 _ _ _ (List.cons_ne_nil _ _)).2
    ⟨[either, either], ?_, rfl⟩
  rw [trimmed]
  exact .all (by decide) plain (.more separator (.last either.markedText))

end ProgressRules

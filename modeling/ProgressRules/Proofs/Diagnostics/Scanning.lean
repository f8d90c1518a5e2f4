import Mathlib.Data.List.Basic
import Mathlib.Data.List.Induction
import ProgressRules.Catalog
import ProgressRules.Gloss
import ProgressRules.Proofs.Condition.Tokens
import ProgressRules.Proofs.Decomposition.Flat
import ProgressRules.Proofs.Text.Collecting

/-! What the interpretation and the warnings are made of. The search through the text of a rule
ignores marks, quotes and structure. In a rule that is accepted it finds the comparisons of the
condition all the same, in order and nothing else. -/

namespace ProgressRules

open Text (Stops)

/-! ### First appearances -/

/-- The list holds the members of `all` that have the property, in the order in which they first
appear there. The order is strict, so each stands in the list once. -/
structure FirstAppearances {α : Type} [BEq α] (p : α → Prop) (all list : List α) : Prop where
  ordered : list.Pairwise fun a b => all.idxOf a < all.idxOf b
  mem_iff : ∀ a, a ∈ list ↔ a ∈ all ∧ p a

section

variable {α : Type} [BEq α] [LawfulBEq α]

theorem eraseDups_concat (as : List α) (b : α) :
    (as ++ [b]).eraseDups = as.eraseDups ++ if as.elem b then [] else [b] := by
  rw [List.eraseDups_append, List.removeAll, List.filter_singleton]
  cases as.elem b <;> rfl

theorem firstAppearances_eraseDups (p : α → Bool) (all : List α) :
    FirstAppearances (p · = true) all (all.filter p).eraseDups where
  mem_iff a := by rw [List.mem_eraseDups, List.mem_filter]
  ordered := by
    induction all using List.reverseRecOn with
    | nil => exact List.Pairwise.nil
    | append_singleton as b ih =>
      -- what has appeared keeps its place, and a new member comes after all of it
      have earlier : (as.filter p).eraseDups.Pairwise
          fun x y => (as ++ [b]).idxOf x < (as ++ [b]).idxOf y := by
        refine ih.imp_of_mem fun hx hy before => ?_
        rw [List.mem_eraseDups, List.mem_filter] at hx hy
        rwa [List.idxOf_append_of_mem hx.1, List.idxOf_append_of_mem hy.1]
      rw [List.filter_append, List.filter_singleton]
      cases hp : p b with
      | false => simpa using earlier
      | true =>
        rw [cond_true, eraseDups_concat]
        split
        · simpa using earlier
        · rename_i fresh
          have absent : b ∉ as := by simpa [hp] using fresh
          refine List.pairwise_append.2 ⟨earlier, List.pairwise_singleton _ _, fun x hx y hy => ?_⟩
          rw [List.mem_eraseDups, List.mem_filter] at hx
          cases List.mem_singleton.1 hy
          rw [List.idxOf_append_of_mem hx.1, List.idxOf_append_of_notMem absent]
          exact Nat.lt_add_right _ (List.idxOf_lt_length_of_mem hx.1)

end

/-! ### Comparisons in the text of a rule -/

theorem Comparison.read_eq_none {text : Text} (stops : Stops Text.isWord text) :
    Comparison.read text = none := by
  simp [Comparison.read, Reference.read_eq_none stops]

theorem collect_visible {front : Text} (marks : ∀ c ∈ front, Text.isWord c = false) (rest : Text) :
    Text.collect Comparison.read (front ++ rest) = Text.collect Comparison.read rest :=
  Text.collect_append fun c inside _ =>
    Comparison.read_eq_none (Text.stops_cons.2 (marks c inside))

theorem collect_gap {gap : Text} (blank : Text.Blank gap) (rest : Text) :
    Text.collect Comparison.read (gap ++ rest) = Text.collect Comparison.read rest :=
  collect_visible (fun c inside => Text.not_isWord_of_isBlank (blank c inside)) rest

theorem WrittenComparison.collect_text {w : WrittenComparison} (h : w.WellFormed) {rest : Text}
    (stops : Stops continuesNumber rest) :
    Text.collect Comparison.read (w.text ++ rest) =
      w.comparison :: Text.collect Comparison.read rest :=
  Text.collect_item (w.text_ne_nil h) (Comparison.read_append h stops)

theorem Lexeme.collect_ruleText {x : Lexeme} (h : x.WellFormed) {rest : Text}
    (stops : Stops continuesToken rest) :
    Text.collect Comparison.read (x.ruleText ++ rest) =
      x.token.comparison?.toList ++ Text.collect Comparison.read rest := by
  cases x with
  | comparison w =>
    have mark : Comparison.read ('#' :: (w.text ++ rest)) = none :=
      Comparison.read_eq_none (Text.stops_cons.2 (by decide))
    -- behind its mark the comparison is read as it is read without one
    exact (Text.collect_cons mark).trans (w.collect_text h (stops_number stops))
  | and | or | not | leftParen | rightParen => exact collect_visible (by decide) rest

theorem Layout.collect_ruleText {layout : Layout} (wellFormed : layout.WellFormed) :
    Text.collect Comparison.read layout.ruleText = layout.tokens.filterMap Token.comparison? := by
  induction layout with
  | nil => rfl
  | cons item layout ih =>
    obtain ⟨x, gap⟩ := item
    obtain ⟨wf_x, blank, wf_layout⟩ := Layout.wellFormed_cons.1 wellFormed
    rw [Layout.ruleText_cons, Lexeme.collect_ruleText wf_x (Layout.stops_continuesToken blank),
      collect_gap blank, ih wf_layout]
    cases x <;> rfl

theorem Condition.collect_of_ofRule? {rule : Text} {t : Condition}
    (accepted : Condition.ofRule? rule = some t) :
    Text.collect Comparison.read rule = t.comparisons := by
  obtain ⟨lead, layout, blank, wellFormed, rfl, sentence⟩ :=
    Condition.ofRule?_iff_layout.1 accepted
  rw [collect_gap blank, Layout.collect_ruleText wellFormed, sentence.comparisons_eq]

theorem Condition.exists_written {rule : Text} {t : Condition}
    (accepted : Condition.ofRule? rule = some t) {c : Comparison} (inside : c ∈ t.comparisons) :
    ∃ (w : WrittenComparison) (front rest : Text), w.WellFormed ∧ w.comparison = c ∧
      rule = front ++ (w.markedText ++ rest) := by
  obtain ⟨lead, layout, blank, wellFormed, rfl, sentence⟩ :=
    Condition.ofRule?_iff_layout.1 accepted
  rw [sentence.comparisons_eq, List.mem_filterMap] at inside
  obtain ⟨token, member, found⟩ := inside
  obtain ⟨⟨x, gap⟩, item, rfl⟩ := List.mem_map.1 member
  cases x with
  | comparison w =>
    cases found
    obtain ⟨earlier, later, rfl⟩ := List.append_of_mem item
    refine ⟨w, lead ++ Layout.ruleText earlier, gap ++ Layout.ruleText later,
      (wellFormed _ item).1, rfl, ?_⟩
    simp [Layout.ruleText, Layout.text, Lexeme.ruleText, Lexeme.token, Token.text]
  | _ => cases found

theorem Layout.ofText?_of_mem_tokens {layout : Layout} (wellFormed : layout.WellFormed)
    {c : Comparison} {text : Text} (inside : .comparison c text ∈ layout.tokens) :
    Comparison.ofText? text = some c := by
  obtain ⟨⟨x, gap⟩, member, same⟩ := List.mem_map.1 inside
  exact Lexeme.ofText?_eq_some (wellFormed _ member).1 same

/-! ### Warnings -/

def Catalog.unknownWarning (root : Text) : Text :=
  "Condition references unknown variable '".toList ++ root ++ [Text.apostrophe]

theorem Catalog.exists_firstAppearances (catalog : Catalog) (rule : Text) :
    ∃ roots, FirstAppearances (· ∉ catalog.roots)
        ((Text.collect Comparison.read rule).map fun c => Variable.rootOf c.reference) roots ∧
      catalog.unknownReferences rule = roots.map Catalog.unknownWarning := by
  refine ⟨catalog.unknownRoots rule, ?_, rfl⟩
  obtain ⟨ordered, mem_iff⟩ := firstAppearances_eraseDups (fun root => !catalog.hasRoot root)
    ((Text.collect Comparison.read rule).map fun c => Variable.rootOf c.reference)
  refine ⟨ordered, fun root => (mem_iff root).trans (and_congr_right fun _ => ?_)⟩
  simp [Catalog.hasRoot]

theorem Catalog.unknownReferences_eq_nil (catalog : Catalog) {rule : Text} {t : Condition}
    (accepted : Condition.ofRule? rule = some t)
    (known : ∀ c ∈ t.comparisons, Variable.rootOf c.reference ∈ catalog.roots) :
    catalog.unknownReferences rule = [] := by
  obtain ⟨roots, appear, same⟩ := catalog.exists_firstAppearances rule
  rw [Condition.collect_of_ofRule? accepted] at appear
  rw [same, List.map_eq_nil_iff, List.eq_nil_iff_forall_not_mem]
  intro root inside
  obtain ⟨member, unknown⟩ := (appear.mem_iff root).1 inside
  obtain ⟨c, compared, rfl⟩ := List.mem_map.1 member
  exact unknown (known c compared)

theorem Variable.rootOf_text {r : Reference} (h : r.WellFormed) :
    Variable.rootOf r.text = r.root := by
  have run := Text.run_append h.root (by
    simpa using Segment.stops_flatMap r.segments (Text.stops_nil Text.isWord))
  have visible : Stops Text.isBlank r.text :=
    h.root.stops fun c word => Text.not_isBlank_of_isWord word
  have unmarked : Variable.withoutMark r.text = r.text := by
    unfold Variable.withoutMark
    split
    · rename_i rest same
      have first : Stops Text.isWord r.text := by
        rw [same]
        exact Text.stops_cons.2 (by decide)
      exact absurd first h.root.not_stops
    · rfl
  rw [Variable.rootOf, Text.trimStart_of_stops visible, unmarked, Reference.text, run]

/-- The interpretation and the warnings of an accepted rule are about its comparisons: the search
finds those that the tokens hold and the condition consists of. The interpretation consists of
their glosses, and the warnings name their roots that are not in the catalog. -/
theorem collect_exact (rule : Text) :
    ((decompose rule).failed = false →
      ∃ t, Condition.ofRule? rule = some t ∧ t.comparisons = (decompose rule).comparisons) ∧
    ∀ t, Condition.ofRule? rule = some t →
      Text.collect Comparison.read rule = t.comparisons ∧
      (∃ tokens, tokenize rule = .ok tokens ∧
        tokens.filterMap Token.comparison? = t.comparisons ∧
        ∀ c text, .comparison c text ∈ tokens → Comparison.ofText? text = some c) ∧
      (∀ separator, interpret separator rule =
        Text.joinWith separator (t.comparisons.map Gloss.ofComparison)) ∧
      ∀ catalog : Catalog, ∃ roots, FirstAppearances (· ∉ catalog.roots)
          (t.comparisons.map fun c => Variable.rootOf c.reference) roots ∧
        catalog.unknownReferences rule = roots.map Catalog.unknownWarning := by
  refine ⟨fun recognised => ?_, fun t accepted => ?_⟩
  · obtain ⟨t, standsFor, read⟩ := Decomposition.exists_standsFor recognised
    exact ⟨t, read, standsFor.comparisons_eq⟩
  · obtain ⟨lead, layout, blank, wellFormed, rfl, sentence⟩ :=
      Condition.ofRule?_iff_layout.1 accepted
    have found := Condition.collect_of_ofRule? accepted
    refine ⟨found, ⟨layout.tokens, ?_, sentence.comparisons_eq.symm, ?_⟩, fun separator => ?_,
      fun catalog => ?_⟩
    · exact Layout.tokenize_eq_ok.2 ⟨lead, layout, blank, wellFormed, rfl, rfl⟩
    · exact fun c text => Layout.ofText?_of_mem_tokens wellFormed
    · rw [interpret, found]
    · rw [← found]
      exact catalog.exists_firstAppearances _

theorem collect_quoted_key :
    ∃ t, Condition.ofRule? "#stats['x > 5'].total>=3 && #level != 0.25".toList = some t ∧
      t.comparisons.map Comparison.reference =
        ["stats['x > 5'].total".toList, "level".toList] ∧
      Text.collect Comparison.read "#stats['x > 5'].total>=3 && #level != 0.25".toList =
        t.comparisons ∧
      interpret "; ".toList "#stats['x > 5'].total>=3 && #level != 0.25".toList =
        Text.joinWith "; ".toList (t.comparisons.map Gloss.ofComparison) ∧
      Catalog.default.unknownReferences "#stats['x > 5'].total>=3 && #level != 0.25".toList =
        ["stats".toList, "level".toList].map Catalog.unknownWarning := by
  have recognised :
      (decompose "#stats['x > 5'].total>=3 && #level != 0.25".toList).failed = false := by
    decide +kernel
  obtain ⟨t, accepted, same⟩ := (collect_exact _).1 recognised
  obtain ⟨found, -, glosses, -⟩ := (collect_exact _).2 t accepted
  refine ⟨t, accepted, ?_, found, glosses _, by decide +kernel⟩
  rw [same]
  decide +kernel

end ProgressRules

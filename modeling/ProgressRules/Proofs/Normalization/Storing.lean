import ProgressRules.Proofs.Condition.Phrase
import ProgressRules.Proofs.Normalization.Authoring

/-! Phrases in the authoring language are stored as the same phrases in the rule language. -/

namespace ProgressRules

open Text (IsRun Stops Piece isWord isBlank textOf Separated)

namespace Normalization

variable {roots : List Text}

theorem rewrite_skipping {known : Text → Bool} {before : Option Char} {pieces : List Piece}
    (visible : Stops isBlank (textOf pieces)) :
    rewrite known true before pieces = rewrite known false before pieces := by
  cases pieces with
  | nil => rfl
  | cons piece pieces =>
    cases piece with
    | mark c =>
      have hc : isBlank c = false := Text.stops_cons.1 visible
      simp [rewrite, hc]
    | word w => rfl

theorem rewrite_truth (names : ∀ root ∈ roots, IsName root) (value : Bool) (before : Option Char)
    (others : List Piece) :
    ∃ last, rewrite roots.contains false before (Sign.source (.truth value) ++ others) =
      Sign.rule (.truth value) ++ rewrite roots.contains false last others := by
  refine ⟨some 'e', ?_⟩
  cases value with
  | true =>
    have unknown := contains_of_reserved names (w := "True".toList) (by decide)
    rw [Sign.source, List.singleton_append, if_pos rfl, rewrite, unknown]
    rfl
  | false =>
    have unknown := contains_of_reserved names (w := "False".toList) (by decide)
    rw [Sign.source, List.singleton_append, if_neg Bool.false_ne_true, rewrite, unknown]
    rfl

theorem rewrite_operand (names : ∀ root ∈ roots, IsName root) {x : Operand} (h : x.WellFormed)
    (before : Option Char) (others : List Piece) :
    ∃ last, rewrite roots.contains false before (x.pieces Sign.source ++ others) =
      x.pieces Sign.rule ++ rewrite roots.contains false last others := by
  cases x with
  | number n => exact rewrite_inert (inert_number h (contains_of_digits names) before) others
  | truth value => exact rewrite_truth names value before others

theorem rewrite_test (names : ∀ root ∈ roots, IsName root) {a : Atom} (h : a.IsAuthorable roots)
    (before : Option Char) (others : List Piece) :
    ∃ last, rewrite roots.contains false before (a.testPieces Sign.source ++ others) =
      a.testPieces Sign.rule ++ rewrite roots.contains false last others := by
  unfold Atom.testPieces
  split
  · rename_i operator operand same
    obtain ⟨last, rest⟩ := rewrite_operand names (h.test operator operand same).2
      ((' ' :: (operator.symbol ++ [' '])).getLast?.or before) others
    exact ⟨last, by rw [List.append_assoc, rewrite_marks, rest, List.append_assoc]⟩
  · exact ⟨before, rfl⟩

theorem rewrite_atom (names : ∀ root ∈ roots, IsName root) {a : Atom}
    (h : a.IsAuthorable roots) {before : Option Char} (fresh : blocksMark before = false)
    (others : List Piece) :
    ∃ last, rewrite roots.contains false before (a.bare Sign.source ++ others) =
      .mark '#' :: a.bare Sign.rule ++ rewrite roots.contains false last others := by
  have free := (names _ h.reference.root).not_reserved
  have known : roots.contains a.reference.root = true := List.contains_iff_mem.2 h.reference.root
  have segments : Inert roots.contains a.reference.root.getLast?
      (a.reference.segments.flatMap Segment.pieces ++ []) :=
    inert_segments h.reference.segments (fun _ => by exact trivial) _
  rw [List.append_nil] at segments
  obtain ⟨middle, same⟩ := rewrite_inert segments (a.testPieces Sign.source ++ others)
  obtain ⟨last, same'⟩ := rewrite_test names h middle others
  refine ⟨last, ?_⟩
  rw [Atom.bare, List.cons_append, List.append_assoc, rewrite_word free, markWord, known, fresh,
    same, same', Atom.bare]
  simp

theorem rewrite_sign (names : ∀ root ∈ roots, IsName root) {s : Sign}
    (inside : s ∈ [Sign.not, .and, .or]) (before : Option Char) {others : List Piece}
    (visible : Stops isBlank (textOf others)) :
    ∃ last, blocksMark last = false ∧ rewrite roots.contains false before (s.source ++ others) =
      s.rule ++ rewrite roots.contains false last others := by
  refine ⟨some ' ', by decide, ?_⟩
  have unknown : ∀ w ∈ reservedWords, roots.contains w = false :=
    fun w => contains_of_reserved names
  have mark : ∀ pieces, rewrite roots.contains false before (.mark ' ' :: pieces) =
      .mark ' ' :: rewrite roots.contains false (some ' ') pieces := fun pieces => by
    rw [rewrite, Bool.false_and, if_neg Bool.false_ne_true]
  simp only [List.mem_cons, List.not_mem_nil, or_false] at inside
  rcases inside with rfl | rfl | rfl
  · rw [Sign.source, List.cons_append, rewrite, unknown _ (by decide), ← rewrite_skipping visible]
    rfl
  · rw [Sign.source, List.cons_append, List.cons_append, mark, rewrite, unknown _ (by decide)]
    rfl
  · rw [Sign.source, List.cons_append, List.cons_append, mark, rewrite, unknown _ (by decide)]
    rfl

/-- Storing marks the references and writes the signs of the rule language. -/
theorem restyles_rewrite (names : ∀ root ∈ roots, IsName root) :
    Restyles (fun before pieces => textOf (rewrite roots.contains false before pieces))
      (blocksMark · = false) (Atom.IsAuthorable roots) Sign.source Sign.rule where
  nil _ := rfl
  atom {a} h before others fresh _ := by
    obtain ⟨last, same⟩ := rewrite_atom names h fresh others
    refine ⟨last, ?_⟩
    rw [← Text.textOf_append]
    exact congrArg textOf same
  leftParen before others _ := by
    refine ⟨some '(', by decide, ?_⟩
    rw [rewrite_mark (by decide), Text.textOf_mark]
  rightParen before others _ := by
    refine ⟨some ')', ?_⟩
    rw [rewrite_mark (by decide), Text.textOf_mark]
  sign s inside before others begins := by
    obtain ⟨last, free, same⟩ := rewrite_sign names inside before begins.visible
    exact ⟨last, free, by rw [same, Text.textOf_append]⟩

end Normalization

theorem normalize_phrase {vars : List Variable} (names : ∀ root ∈ rootsOf vars, IsName root)
    {p : Phrase} (all : ∀ a ∈ p.atoms, a.IsAuthorable (rootsOf vars)) :
    normalize vars p.text = .ok (textOf (p.pieces Sign.rule)) := by
  have runs : ∀ a ∈ p.atoms, IsRun isWord a.reference.root :=
    fun a member => (names _ (all a member).reference.root).run
  have separated : Separated (p.pieces Sign.source ++ []) :=
    Phrase.separated (fun _ => true) names all trivial (.inl rfl)
  have begins : Begins (textOf (p.pieces Sign.source ++ [])) :=
    p.begins (fun _ => true) runs []
  rw [List.append_nil] at separated begins
  have restyles : Restyles _ _ _ (Sign.mixed fun _ => true) Sign.rule :=
    Normalization.restyles_rewrite names
  rw [← p.textOf_pieces, normalize_textOf (fun root member => (names root member).run) separated
    begins.not_blankOnly]
  exact congrArg Except.ok (restyles.whole runs all rfl)

end ProgressRules

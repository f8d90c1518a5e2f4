import ProgressRules.Proofs.Normalization.SinglePass

/-! The order of the passes. Roots are marked and words are replaced one after the other, each in
the text that the passes before it left, and yet the order does not count: all of it is one pass
over the text, in which only the set of the roots matters. -/

namespace ProgressRules

namespace Normalization

open Text (IsRun Piece isWord isBlank textOf piecesOf Separated)

/-! ### Substitutions -/

/-- A replacement for a word, or the one for `not` and the blanks after it. -/
inductive Substitution where
  | word (word written : Text)
  | negation
deriving DecidableEq

def substitutions : List Substitution :=
  [.word "and".toList "&&".toList, .word "or".toList "||".toList, .negation,
    .word "True".toList "true".toList, .word "False".toList "false".toList]

namespace Substitution

def apply (text : Text) : Substitution → Text
  | .word w written => Text.replaceWord w written text
  | .negation => Text.editAll negationEdit text

def onPieces (pieces : List Piece) : Substitution → List Piece
  | .word w written => pieces.flatMap (Piece.replace w (piecesOf written))
  | .negation => negate false pieces

end Substitution

/-- No negation begins with the piece, and none goes on into it. -/
def affirmative : Piece → Bool
  | .word w => w != notWord
  | .mark c => !isBlank c

/-- A word is replaced by something, and negations are not concerned. -/
structure Affirms (word : Text) (written : List Piece) : Prop where
  other : word ≠ notWord
  nonempty : written ≠ []
  pieces : ∀ piece ∈ written, affirmative piece = true

theorem negate_affirmative {written : List Piece}
    (h : ∀ piece ∈ written, affirmative piece = true) (others : List Piece) :
    negate false (written ++ others) = written ++ negate false others := by
  induction written with
  | nil => rfl
  | cons piece written ih =>
    obtain ⟨first, more⟩ := List.forall_mem_cons.1 h
    cases piece with
    | mark c =>
      rw [List.cons_append, negate, Bool.false_and, if_neg Bool.false_ne_true, ih more]
      rfl
    | word w =>
      have other : w ≠ notWord := by simpa [affirmative] using first
      rw [List.cons_append, negate, decide_eq_false other, Bool.false_and,
        if_neg Bool.false_ne_true, ih more]
      rfl

variable {word : Text} {written : List Piece}

theorem Affirms.followedByBlank (h : Affirms word written) (others : List Piece) :
    followedByBlank (written ++ others) = false := by
  obtain ⟨piece, more, rfl⟩ := List.exists_cons_of_ne_nil h.nonempty
  cases piece with
  | mark c =>
    have visible : isBlank c = false := by
      simpa [affirmative] using h.pieces _ List.mem_cons_self
    exact visible
  | word w => rfl

/-- What has been written ends a gap. -/
theorem Affirms.negate (h : Affirms word written) (skipping : Bool) (others : List Piece) :
    negate skipping (written ++ others) = written ++ Normalization.negate false others := by
  rw [← negate_affirmative h.pieces]
  obtain ⟨piece, more, rfl⟩ := List.exists_cons_of_ne_nil h.nonempty
  cases piece with
  | mark c =>
    have visible : isBlank c = false := by
      simpa [affirmative] using h.pieces _ List.mem_cons_self
    rw [List.cons_append, Normalization.negate, Normalization.negate, visible, Bool.and_false,
      Bool.and_false]
  | word w => rfl

theorem negate_replace (h : Affirms word written) (skipping : Bool) (pieces : List Piece) :
    negate skipping (pieces.flatMap (Piece.replace word written)) =
      (negate skipping pieces).flatMap (Piece.replace word written) := by
  induction pieces generalizing skipping with
  | nil => rfl
  | cons piece pieces ih =>
    cases piece with
    | mark c =>
      rw [List.flatMap_cons, Piece.replace, List.singleton_append, negate, negate]
      split
      · exact ih true
      · rw [ih, List.flatMap_cons]
        rfl
    | word w =>
      rw [List.flatMap_cons, Piece.replace]
      by_cases same : w = word
      · subst same
        rw [if_pos rfl, h.negate, ih, negate, decide_eq_false h.other, Bool.false_and,
          if_neg Bool.false_ne_true, List.flatMap_cons, Piece.replace, if_pos rfl]
      · rw [if_neg same, List.singleton_append, negate, negate,
          followedByBlank_replace h.followedByBlank]
        split
        · rw [ih, List.flatMap_cons]
          rfl
        · rw [ih, List.flatMap_cons, Piece.replace, if_neg same, List.singleton_append]

theorem replace_replace {v w : Text} {a b : List Piece} (other : v ≠ w)
    (kept : Piece.word w ∉ a) (kept' : Piece.word v ∉ b) (pieces : List Piece) :
    (pieces.flatMap (Piece.replace v a)).flatMap (Piece.replace w b) =
      (pieces.flatMap (Piece.replace w b)).flatMap (Piece.replace v a) := by
  rw [List.flatMap_assoc, List.flatMap_assoc]
  refine congrArg (pieces.flatMap ·) (funext fun piece => ?_)
  cases piece with
  | mark c => rfl
  | word u =>
    by_cases first : u = v
    · subst first
      rw [Piece.replace, if_pos rfl, Text.flatMap_replace_of_not_mem kept, Piece.replace,
        if_neg other, List.flatMap_singleton, Piece.replace, if_pos rfl]
    · rw [Piece.replace, if_neg first, List.flatMap_singleton, Piece.replace]
      split
      · rw [Text.flatMap_replace_of_not_mem kept']
      · rw [List.flatMap_singleton, Piece.replace, if_neg first]

namespace Substitution

/-- Words are replaced by other words or marks, and a negation is none of them. -/
def WellFormed : Substitution → Prop
  | .word w written => IsRun isWord w ∧ Affirms w (piecesOf written)
  | .negation => True

/-- Neither of two replacements writes a word for which the other one stands. -/
def Apart : Substitution → Substitution → Prop
  | .word v a, .word w b => v ≠ w ∧ .word w ∉ piecesOf a ∧ .word v ∉ piecesOf b
  | _, _ => True

instance : ∀ s s' : Substitution, Decidable (s.Apart s')
  | .word .., .word .. => inferInstanceAs (Decidable (_ ∧ _))
  | .word .., .negation => isTrue trivial
  | .negation, _ => isTrue trivial

theorem apply_textOf {s : Substitution} (h : s.WellFormed) {pieces : List Piece}
    (separated : Separated pieces) :
    s.apply (textOf pieces) = textOf (s.onPieces pieces) ∧ Separated (s.onPieces pieces) := by
  cases s with
  | word w written =>
    have pass := Text.replaceWord_textOf h.1 (piecesOf written) separated
    rw [Text.textOf_piecesOf] at pass
    exact ⟨pass, Text.separated_replace (Text.separated_piecesOf written) separated⟩
  | negation => exact ⟨(editFrom_negation separated).1 none (.inl rfl), separated_negate separated _⟩

theorem onPieces_comm {s s' : Substitution} (h : s.WellFormed) (h' : s'.WellFormed)
    (apart : s.Apart s') (pieces : List Piece) :
    s'.onPieces (s.onPieces pieces) = s.onPieces (s'.onPieces pieces) := by
  cases s with
  | word v a =>
    cases s' with
    | word w b => exact replace_replace apart.1 apart.2.1 apart.2.2 pieces
    | negation => exact negate_replace h.2 false pieces
  | negation =>
    cases s' with
    | word w b => exact (negate_replace h'.2 false pieces).symm
    | negation => rfl

/-- Two substitutions that do not interfere may change their places. -/
theorem apply_comm {s s' : Substitution} (h : s.WellFormed) (h' : s'.WellFormed)
    (apart : s.Apart s') (text : Text) : s'.apply (s.apply text) = s.apply (s'.apply text) := by
  obtain ⟨pieces, separated, rfl⟩ := Text.exists_pieces text
  obtain ⟨first, separated_first⟩ := apply_textOf h separated
  obtain ⟨second, separated_second⟩ := apply_textOf h' separated
  rw [first, second, (apply_textOf h' separated_first).1, (apply_textOf h separated_second).1,
    onPieces_comm h h' apart]

end Substitution

theorem wellFormed_of_mem : ∀ s ∈ substitutions, s.WellFormed := by
  have word : ∀ w written : Text,
      (w ≠ [] ∧ ∀ c ∈ w, isWord c = true) ∧ w ≠ notWord ∧ piecesOf written ≠ [] ∧
        (∀ piece ∈ piecesOf written, affirmative piece = true) →
          (Substitution.word w written).WellFormed :=
    fun _ _ ⟨run, other, nonempty, pieces⟩ => ⟨run, other, nonempty, pieces⟩
  simp only [substitutions, List.forall_mem_cons]
  exact ⟨word _ _ (by decide), word _ _ (by decide), trivial, word _ _ (by decide),
    word _ _ (by decide), fun _ => nofun⟩

theorem apart_of_mem : ∀ s ∈ substitutions, ∀ s' ∈ substitutions, s = s' ∨ s.Apart s' := by
  decide

/-- The substitutions for operators and truth values give one text in any order. -/
theorem foldl_substitutions {order : List Substitution} (same : order.Perm substitutions)
    (text : Text) : order.foldl Substitution.apply text = replaceOperators text := by
  refine same.foldl_eq' (fun s hs s' hs' text => ?_) text
  have wellFormed := wellFormed_of_mem s (same.subset hs)
  have wellFormed' := wellFormed_of_mem s' (same.subset hs')
  rcases apart_of_mem s (same.subset hs) s' (same.subset hs') with rfl | apart
  · rfl
  · exact Substitution.apply_comm wellFormed wellFormed' apart text

/-! ### One pass over a text -/

def simultaneous (roots : List Text) (text : Text) : Text :=
  textOf (rewrite roots.contains false none (piecesOf text))

theorem simultaneous_congr {roots roots' : List Text} (same : ∀ root, root ∈ roots ↔ root ∈ roots')
    (text : Text) : simultaneous roots text = simultaneous roots' text := by
  have contains : roots.contains = roots'.contains := by
    funext root
    rw [Bool.eq_iff_iff, List.contains_iff_mem, List.contains_iff_mem, same]
  rw [simultaneous, contains, simultaneous]

end Normalization

theorem mem_rootsOf {vars : List Variable} {root : Text} :
    root ∈ rootsOf vars ↔ root ∈ vars.map Variable.root :=
  List.mem_eraseDups

open Normalization in
theorem normalize_eq_simultaneous {vars : List Variable}
    (words : ∀ v ∈ vars, Text.IsRun Text.isWord v.root) (source : Text) :
    normalize vars source =
      .ok (if Text.blankOnly source then [] else simultaneous (vars.map Variable.root) source) := by
  cases blank : Text.blankOnly source with
  | true => rw [normalize, if_pos blank]; rfl
  | false =>
    have words' : ∀ root ∈ rootsOf vars, Text.IsRun Text.isWord root := fun root inside => by
      obtain ⟨v, member, rfl⟩ := List.mem_map.1 (mem_rootsOf.1 inside)
      exact words v member
    have pass := normalize_textOf words' (Text.separated_piecesOf source)
      (by rw [Text.textOf_piecesOf, blank])
    rw [Text.textOf_piecesOf] at pass
    rw [pass, ← simultaneous, simultaneous_congr fun root => mem_rootsOf]
    rfl

open Normalization in
/-- Normalization is one pass over the words of a text, in which only the set of the roots matters,
and in which operators and truth values are replaced in any order. -/
theorem normalize_order {vars : List Variable}
    (words : ∀ v ∈ vars, Text.IsRun Text.isWord v.root) :
    (∀ source, normalize vars source =
      .ok (if Text.blankOnly source then [] else simultaneous (vars.map Variable.root) source)) ∧
    (∀ vars' : List Variable,
      (∀ root, root ∈ vars'.map Variable.root ↔ root ∈ vars.map Variable.root) →
        ∀ source, normalize vars' source = normalize vars source) ∧
    ∀ order : List Substitution, order.Perm substitutions →
      ∀ text, order.foldl Substitution.apply text = replaceOperators text := by
  refine ⟨normalize_eq_simultaneous words, fun vars' same source => ?_, fun order same text =>
    foldl_substitutions same text⟩
  have words' : ∀ v ∈ vars', Text.IsRun Text.isWord v.root := fun v member => by
    obtain ⟨u, inside, root⟩ := List.mem_map.1 ((same v.root).1 (List.mem_map_of_mem member))
    rw [← root]
    exact words u inside
  rw [normalize_eq_simultaneous words, normalize_eq_simultaneous words', simultaneous_congr same]

namespace Sample

def levelThenNot : List Variable := [.ofPath "level.now".toList, .ofPath "not".toList]

def notTwice : List Variable :=
  [.ofPath "not".toList, .ofPath "level".toList, .ofPath "not".toList]

end Sample

open Normalization Sample in
/-- A root may be a keyword. It is marked all the same, and the other passes act behind its mark. -/
theorem normalize_keyword_root :
    normalize levelThenNot "not  level and #level == True".toList =
        .ok "#!#level && #level == true".toList ∧
      normalize notTwice "not  level and #level == True".toList =
        .ok "#!#level && #level == true".toList ∧
      substitutions.reverse.foldl Substitution.apply "#not  #level and #level == True".toList =
        "#!#level && #level == true".toList := by
  have words : ∀ v ∈ levelThenNot, Text.IsRun Text.isWord v.root :=
    List.forall_mem_cons.2 ⟨⟨by decide, by decide⟩, List.forall_mem_singleton.2
      ⟨by decide, by decide⟩⟩
  obtain ⟨pass, roots, orders⟩ := normalize_order words
  have first : normalize levelThenNot "not  level and #level == True".toList =
      .ok "#!#level && #level == true".toList := by
    rw [pass]
    refine congrArg Except.ok ?_
    decide +kernel
  refine ⟨first, ?_, ?_⟩
  · have listed : levelThenNot.map Variable.root = ["level".toList, "not".toList] := by decide
    have listed' : notTwice.map Variable.root =
        ["not".toList, "level".toList, "not".toList] := by decide
    rw [roots _ fun root => ?_, first]
    rw [listed, listed']
    simp only [List.mem_cons, List.not_mem_nil, or_false]
    rw [or_left_comm, or_self]
  · rw [orders _ substitutions.reverse_perm]
    decide +kernel

end ProgressRules

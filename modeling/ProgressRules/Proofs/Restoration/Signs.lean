import ProgressRules.Proofs.Condition.Phrase
import ProgressRules.Proofs.Restoration.Words

/-! The passes of the restoration, one for each sign of a phrase. Each writes its sign in the
authoring language and leaves the other signs as they are. -/

namespace ProgressRules

open Text (IsRun Stops Piece isWord isBlank textOf Separated editFrom)

namespace Restoration

variable {roots : List Text} {restored : Sign → Bool}

def passOver (rule : Text.EditRule) (before : Option Char) (pieces : List Piece) : Text :=
  editFrom rule before 0 (textOf pieces)

/-- The rule edits nothing in a front without the character `c`, if the front ends with something
visible or a phrase begins after it. -/
def IsInertWithout (rule : Text.EditRule) (c : Char) : Prop :=
  ∀ {front rest : Text} (before : Option Char), c ∉ front →
    (∃ d, front.getLast? = some d ∧ isBlank d = false) ∨ Begins rest →
    ∃ last, editFrom rule before 0 (front ++ rest) = front ++ editFrom rule last 0 rest

/-- A pass for one sign is known from what it does to this sign and to references. -/
theorem restyles_over {rule : Text.EditRule} {c : Char} (inert : IsInertWithout rule c) {x : Sign}
    (parens : c ∉ ['(', ')'])
    (outside : ∀ s ∈ [Sign.not, .and, .or], s ≠ x → c ∉ textOf (s.source ++ s.rule))
    {valid : Atom → Prop}
    (atom : ∀ {a}, valid a → ∀ before rest, ∃ last,
      editFrom rule before 0
          (textOf (Sign.mixed restored .mark ++ a.bare (Sign.mixed restored)) ++ rest) =
        textOf (Sign.mixed (Sign.restore x restored) .mark ++
          a.bare (Sign.mixed (Sign.restore x restored))) ++ editFrom rule last 0 rest)
    (edited : x ∈ [Sign.not, .and, .or] → ∀ before {rest}, Begins rest → ∃ last,
      editFrom rule before 0 (textOf (Sign.mixed restored x) ++ rest) =
        textOf x.source ++ editFrom rule last 0 rest) :
    Restyles (passOver rule) (fun _ => True) valid (Sign.mixed restored)
      (Sign.mixed (Sign.restore x restored)) where
  nil _ := rfl
  atom h before others _ _ := by
    obtain ⟨last, same⟩ := atom h before (textOf others)
    refine ⟨last, ?_⟩
    rw [passOver, ← List.append_assoc, Text.textOf_append]
    exact same
  leftParen before others begins := by
    have paren : c ∉ ['('] := fun inside => parens (List.mem_append_left [')'] inside)
    obtain ⟨last, same⟩ := inert before paren (.inr begins)
    exact ⟨last, trivial, same⟩
  rightParen before others _ := by
    have paren : c ∉ [')'] := fun inside => parens (List.mem_append_right ['('] inside)
    exact inert before paren (.inl ⟨')', rfl, by decide⟩)
  sign s inside before others begins := by
    by_cases same : s = x
    · subst same
      obtain ⟨last, edit⟩ := edited inside before begins
      refine ⟨last, trivial, ?_⟩
      rw [passOver, Text.textOf_append, edit, Sign.mixed_restore_self]
      rfl
    · have foreign : c ∉ textOf (Sign.mixed restored s) := by
        have both := outside s inside same
        rw [Text.textOf_append, List.mem_append, not_or] at both
        unfold Sign.mixed
        split
        · exact both.1
        · exact both.2
      obtain ⟨last, kept⟩ := inert before foreign (.inr begins)
      refine ⟨last, trivial, ?_⟩
      rw [passOver, Text.textOf_append, kept, Sign.mixed_restore_of_ne same]
      rfl

/-! ### The passes for marks, operators and negations -/

theorem dropMark_isInert : IsInertWithout dropMark '#' :=
  fun before outside _ => ⟨_, editFrom_dropMark_inert outside before _⟩

theorem negationWord_isInert : IsInertWithout negationWord '!' :=
  fun before outside _ => ⟨_, editFrom_negationWord_inert outside before _⟩

theorem operatorWord_isInert {symbol word : String} {c : Char} (symbol_eq : symbol.toList = [c, c])
    (mark : isWord c = false) (other : c ∉ ['#', '(', '!']) :
    IsInertWithout (operatorWord symbol word) c := by
  intro front rest before outside behind
  refine ⟨_, Text.editFrom_inert fun a d b split => ?_⟩
  have none : Text.padded [c, c] ((d :: b) ++ rest) = none := by
    rcases behind with ⟨e, last, visible⟩ | begins
    · exact (Text.plain_of_not_mem outside last visible).padded_eq_none split (by simp)
    · refine Text.padded_eq_none_of_outside (fun inside => outside ?_) begins.visible
        (begins.other mark other) [c]
      rw [split]
      exact List.mem_append_right a inside
  rw [operatorWord, symbol_eq]
  exact congrArg _ none

theorem bare_restore {x : Sign} (other : ∀ value, x ≠ .truth value) (a : Atom) :
    a.bare (Sign.mixed (Sign.restore x restored)) = a.bare (Sign.mixed restored) :=
  Atom.bare_congr (fun value => Sign.mixed_restore_of_ne (other value).symm restored) a

theorem restyles_dropMark (names : ∀ root ∈ roots, IsName root) (marked : restored .mark = false) :
    Restyles (passOver dropMark) (fun _ => True) (Atom.IsAuthorable roots) (Sign.mixed restored)
      (Sign.mixed (Sign.restore .mark restored)) := by
  refine restyles_over dropMark_isInert (by decide) (by decide) (fun {a} h before rest => ?_)
    (fun inside => absurd inside (by decide))
  have mark : Sign.mixed restored .mark = [.mark '#'] := by
    rw [Sign.mixed, marked]
    rfl
  have name : ∀ rest, textOf (a.bare (Sign.mixed restored)) ++ rest = a.reference.root ++
      ((a.reference.segments.flatMap Segment.text ++ textOf (a.testPieces (Sign.mixed restored))) ++
        rest) := by
    intro rest
    rw [Atom.textOf_bare, Reference.text]
    simp only [List.append_assoc]
  have bare : a.bare (Sign.mixed (Sign.restore .mark restored)) = a.bare (Sign.mixed restored) :=
    bare_restore (by simp) a
  rw [mark, Sign.mixed_restore_self, bare, List.singleton_append, Text.textOf_mark,
    List.cons_append, name, editFrom_dropMark_name (names _ h.reference.root), ← name,
    editFrom_dropMark_inert (not_mem_bare names h (by decide))]
  exact ⟨_, rfl⟩

/-- A pass for an operator leaves atoms as they are. -/
theorem restyles_operator {rule : Text.EditRule} {c : Char} (inert : IsInertWithout rule c)
    {x : Sign} (operator : x ∈ [Sign.not, .and, .or]) (unmarked : restored .mark = true)
    (rules : restored x = false) (parens : c ∉ ['(', ')'])
    (outside : ∀ s ∈ [Sign.not, .and, .or], s ≠ x → c ∉ textOf (s.source ++ s.rule))
    (atom : ∀ {a}, Atom.IsAuthorable roots a → ∀ before rest, ∃ last,
      editFrom rule before 0 (textOf (a.bare (Sign.mixed restored)) ++ rest) =
        textOf (a.bare (Sign.mixed restored)) ++ editFrom rule last 0 rest)
    (edited : ∀ before {rest}, Begins rest → ∃ last,
      editFrom rule before 0 (textOf x.rule ++ rest) =
        textOf x.source ++ editFrom rule last 0 rest) :
    Restyles (passOver rule) (fun _ => True) (Atom.IsAuthorable roots) (Sign.mixed restored)
      (Sign.mixed (Sign.restore x restored)) := by
  have others : x ≠ .mark ∧ ∀ value, x ≠ .truth value := by
    constructor
    · rintro rfl
      exact absurd operator (by decide)
    · rintro value rfl
      simp at operator
  have no_mark : Sign.mixed restored .mark = [] := by
    rw [Sign.mixed, unmarked]
    rfl
  have rule_form : Sign.mixed restored x = x.rule := by
    rw [Sign.mixed, rules]
    rfl
  refine restyles_over inert parens outside (fun {a} h before rest => ?_) fun _ => ?_
  · rw [Sign.mixed_restore_of_ne others.1.symm, bare_restore others.2, no_mark]
    exact atom h before rest
  · rw [rule_form]
    exact edited

theorem restyles_operatorWord (names : ∀ root ∈ roots, IsName root) {symbol word : String}
    {c : Char} (symbol_eq : symbol.toList = [c, c]) (foreign : c ∈ ['&', '|']) {x : Sign}
    (operator : x ∈ [Sign.not, .and, .or]) (unmarked : restored .mark = true)
    (rules : restored x = false) (source : textOf x.source = word.toList)
    (rule : textOf x.rule = [' ', c, c, ' '])
    (outside : ∀ s ∈ [Sign.not, .and, .or], s ≠ x → c ∉ textOf (s.source ++ s.rule)) :
    Restyles (passOver (operatorWord symbol word)) (fun _ => True) (Atom.IsAuthorable roots)
      (Sign.mixed restored) (Sign.mixed (Sign.restore x restored)) := by
  have kinds : ∀ c ∈ ['&', '|'], isWord c = false ∧ isBlank c = false ∧ c ∉ ['#', '(', '!'] ∧
      c ∉ ['(', ')'] ∧ c ∈ WrittenComparison.foreign := by decide
  obtain ⟨mark, visible, other, parens, inside⟩ := kinds c foreign
  have inert : IsInertWithout (operatorWord symbol word) c :=
    operatorWord_isInert symbol_eq mark other
  refine restyles_operator inert operator unmarked rules parens outside
    (fun {a} h before rest => ?_) fun before {rest} begins => ?_
  · exact inert before (not_mem_bare names h inside) (.inl (visible_bare names h))
  · have found : Text.padded [c, c] ([' '] ++ ([c, c] ++ ([' '] ++ rest))) = some rest :=
      Text.padded_append Text.blank_space Text.blank_space (Text.stops_cons.2 visible)
        begins.visible
    have edit : operatorWord symbol word before ([' ', c, c, ' '] ++ rest) =
        some (.upTo ([' ', c, c, ' '] ++ rest) rest word.toList) := by
      rw [operatorWord, symbol_eq]
      exact congrArg (Option.map _) found
    rw [rule, source]
    exact ⟨_, Text.editFrom_upTo (by simp) edit⟩

theorem restyles_negationWord (names : ∀ root ∈ roots, IsName root)
    (unmarked : restored .mark = true) (rules : restored .not = false) :
    Restyles (passOver negationWord) (fun _ => True) (Atom.IsAuthorable roots) (Sign.mixed restored)
      (Sign.mixed (Sign.restore .not restored)) := by
  refine restyles_operator negationWord_isInert (by decide) unmarked rules (by decide) (by decide)
    (fun {a} h before rest => ?_) fun before {rest} begins => ?_
  · have outside := h.reference.not_mem_text names List.mem_cons_self
    rw [Atom.textOf_bare]
    cases test : a.test with
    | none =>
      have alone : textOf (a.testPieces (Sign.mixed restored)) = [] := by
        simp [Atom.testPieces, test]
      rw [alone, List.append_nil, editFrom_negationWord_inert outside]
      exact ⟨_, rfl⟩
    | some pair =>
      obtain ⟨operator, operand⟩ := pair
      obtain ⟨known, wellFormed⟩ := h.test operator operand test
      have blank : '!' ∉ [' '] := by decide
      obtain ⟨middle, symbol⟩ := editFrom_negationWord_symbol known
        ([' '].getLast?.or (a.reference.text.getLast?.or before))
        ([' '] ++ (textOf (operand.pieces (Sign.mixed restored)) ++ rest))
      rw [textOf_test test]
      simp only [List.append_assoc]
      rw [editFrom_negationWord_inert outside, editFrom_negationWord_inert blank, symbol,
        editFrom_negationWord_inert blank,
        editFrom_negationWord_inert (not_mem_operand wellFormed List.mem_cons_self)]
      exact ⟨_, rfl⟩
  · have edit := negationWord_append Text.blank_nil begins.visible
      (begins.other (by decide) (by decide)) before
    exact ⟨_, Text.editFrom_upTo (List.cons_ne_nil _ _) edit⟩

/-! ### The passes for truth values -/

def truthWord (value : Bool) : Text := if value then "true".toList else "false".toList

def restoreTruth (value : Bool) (pieces : List Piece) : List Piece :=
  pieces.flatMap (Piece.replace (truthWord value) (Sign.source (.truth value)))

theorem restoreTruth_append (value : Bool) (a b : List Piece) :
    restoreTruth value (a ++ b) = restoreTruth value a ++ restoreTruth value b :=
  List.flatMap_append

theorem restoreTruth_of_not_reserved {value : Bool} {pieces : List Piece}
    (free : ∀ v, .word v ∈ pieces → v ∉ reservedWords) : restoreTruth value pieces = pieces := by
  have reserved : ∀ value, truthWord value ∈ reservedWords := by decide
  exact Text.flatMap_replace_of_not_mem fun inside => free _ inside (reserved value)

theorem restoreTruth_sign {value : Bool} {s : Sign} (other : s ≠ .truth value) :
    restoreTruth value (Sign.mixed restored s) = Sign.mixed restored s := by
  refine Text.flatMap_replace_of_not_mem ?_
  unfold Sign.mixed
  cases s with
  | truth value' =>
    split <;> cases value <;> cases value' <;> first | decide | exact absurd rfl other
  | mark | not | and | or => split <;> cases value <;> decide

theorem restoreTruth_operand {value : Bool} (rules : restored (.truth value) = false) {x : Operand}
    (h : x.WellFormed) :
    restoreTruth value (x.pieces (Sign.mixed restored)) =
      x.pieces (Sign.mixed (Sign.restore (.truth value) restored)) := by
  cases x with
  | number n =>
    exact restoreTruth_of_not_reserved fun v => Numeral.not_reserved_of_mem h
  | truth value' =>
    change restoreTruth value (Sign.mixed restored (.truth value')) = Sign.mixed _ (.truth value')
    by_cases same : value' = value
    · subst same
      rw [Sign.mixed_restore_self, Sign.mixed, rules]
      cases value' <;> rfl
    · have other : Sign.truth value' ≠ .truth value := fun h => same (Sign.truth.inj h)
      rw [Sign.mixed_restore_of_ne other, restoreTruth_sign other]

theorem restoreTruth_bare (names : ∀ root ∈ roots, IsName root) {value : Bool}
    (rules : restored (.truth value) = false) {a : Atom} (h : a.IsAuthorable roots) :
    restoreTruth value (a.bare (Sign.mixed restored)) =
      a.bare (Sign.mixed (Sign.restore (.truth value) restored)) := by
  have reference : restoreTruth value (.word a.reference.root ::
      a.reference.segments.flatMap Segment.pieces) =
      .word a.reference.root :: a.reference.segments.flatMap Segment.pieces := by
    refine restoreTruth_of_not_reserved fun v inside => ?_
    rcases List.mem_cons.1 inside with same | inside
    · cases same
      exact (names _ h.reference.root).not_reserved
    · exact Segment.not_reserved_of_mem h.reference.segments inside
  have test : restoreTruth value (a.testPieces (Sign.mixed restored)) =
      a.testPieces (Sign.mixed (Sign.restore (.truth value) restored)) := by
    unfold Atom.testPieces
    split
    · rename_i operator operand same
      rw [restoreTruth_append, restoreTruth_operand rules (h.test operator operand same).2,
        restoreTruth_of_not_reserved (by simp)]
    · rfl
  rw [Atom.bare, ← List.cons_append, restoreTruth_append, reference, test]
  rfl

theorem restyles_restoreTruth (names : ∀ root ∈ roots, IsName root) {value : Bool}
    (rules : restored (.truth value) = false) :
    Restyles (fun _ pieces => textOf (restoreTruth value pieces)) (fun _ => True)
      (Atom.IsAuthorable roots) (Sign.mixed restored)
      (Sign.mixed (Sign.restore (.truth value) restored)) where
  nil _ := rfl
  atom h _ others _ _ := by
    refine ⟨none, ?_⟩
    rw [restoreTruth_append, restoreTruth_append, restoreTruth_sign (by simp),
      restoreTruth_bare names rules h, Sign.mixed_restore_of_ne (by simp)]
    simp only [Text.textOf_append, List.append_assoc]
  leftParen _ _ _ := ⟨none, trivial, rfl⟩
  rightParen _ _ _ := ⟨none, rfl⟩
  sign s inside _ others _ := by
    have other : s ≠ .truth value := by
      rintro rfl
      simp at inside
    refine ⟨none, trivial, ?_⟩
    rw [restoreTruth_append, restoreTruth_sign other, Sign.mixed_restore_of_ne other,
      Text.textOf_append]

end Restoration

end ProgressRules

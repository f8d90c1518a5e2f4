import ProgressRules.Proofs.Normalization.Storing
import ProgressRules.Proofs.Restoration.ProgressField
import ProgressRules.Proofs.Restoration.Signs

/-! Phrases that are stored and opened again. The pass for percentages leaves them as they are if
no threshold of the progress field is a fraction, and then the author sees what was typed. -/

namespace ProgressRules

open Text (IsRun Stops Piece isWord isBlank textOf Separated editFrom)

namespace Restoration

variable {roots : List Text} {field : Reference}

theorem readThreshold_eq_none {text : Text} (h : Stops continuesNumber text) :
    readThreshold text = none := by
  have no_digit : Text.run Text.isDigit text = none :=
    Text.run_eq_none (h.mono fun c hc => (Bool.or_eq_false_iff.1 hc).1)
  have no_point : Numeral.readFraction text = none :=
    Numeral.readFraction_eq_none (h.mono fun c hc => (Bool.or_eq_false_iff.1 hc).2)
  rw [readThreshold, Numeral.read, no_digit, no_point]
  rfl

theorem percentEdit_eq_none {before : Option Char} {rest : Text}
    (h : ∀ operator after, Operator.read (Text.trimStart rest) = some (operator, after) →
      readThreshold (Text.trimStart after) = none) :
    percentEdit field.text before (field.text ++ rest) = none := by
  have none : readProgress field.text (field.text ++ rest) = none := by
    unfold readProgress
    rw [Text.dropLiteral_append, Option.bind_eq_bind, Option.bind_some]
    cases found : Operator.read (Text.trimStart rest) with
    | none => rfl
    | some result => simp [h _ _ found]
  rw [percentEdit, none]
  split <;> rfl

theorem trimStart_space {text : Text} (visible : Stops isBlank text) :
    Text.trimStart (' ' :: text) = text :=
  (Text.trimStart_append Text.blank_space text).trans (Text.trimStart_of_stops visible)

theorem Closes.read_eq_none {rest : Text} (h : Closes rest) :
    Operator.read (Text.trimStart rest) = none := by
  refine Operator.read_eq_none ?_
  have letters : ∀ c ∈ ['a', 'o', '&', '|'],
      isBlank c = false ∧ ['>', '<', '=', '!'].contains c = false := by decide
  rcases h with rfl | ⟨rest, rfl⟩ | ⟨c, rest, rfl, inside⟩
  · exact Text.stops_nil _
  · exact Text.stops_cons.2 (by decide)
  · obtain ⟨visible, other⟩ := letters c inside
    rw [trimStart_space (Text.stops_cons.2 visible)]
    exact Text.stops_cons.2 other

theorem editFrom_percentEdit_operand (named : field.IsNamed) {x : Operand} (h : x.WellFormed)
    (before : Option Char) {rest : Text} (stops : Stops continuesReference rest) :
    ∃ last, editFrom (percentEdit field.text) before 0 (x.text ++ rest) =
      x.text ++ editFrom (percentEdit field.text) last 0 rest := by
  cases x with
  | number n => exact ⟨_, editFrom_percentEdit_marks named (mark_or_digit_of_mem h) before rest⟩
  | truth value =>
    cases value
    all_goals
      exact ⟨_, editFrom_percentEdit_keyword named ⟨by decide, by decide⟩ (by decide) before stops⟩

theorem editFrom_percentEdit_atom (named : field.IsNamed) {a : Atom} (h : a.IsAuthorable roots)
    (names : ∀ root ∈ roots, IsName root) {before : Option Char} {rest : Text}
    (stops : Stops continuesReference rest)
    (start : percentEdit field.text before
      (a.reference.text ++ (textOf (a.testPieces Sign.source) ++ rest)) = none) :
    ∃ last, editFrom (percentEdit field.text) before 0 (textOf (a.bare Sign.source) ++ rest) =
      textOf (a.bare Sign.source) ++ editFrom (percentEdit field.text) last 0 rest := by
  obtain ⟨middle, reference⟩ := editFrom_percentEdit_reference named
    (names _ h.reference.root).run h.reference.segments start
  rw [Atom.textOf_bare, List.append_assoc, reference]
  cases test : a.test with
  | none => exact ⟨middle, by simp [Atom.testPieces, test]⟩
  | some pair =>
    obtain ⟨operator, operand⟩ := pair
    obtain ⟨known, wellFormed⟩ := h.test operator operand test
    have marks : ∀ c ∈ [' '] ++ (operator.symbol ++ [' ']),
        isWord c = false ∨ Text.isDigit c = true := by
      intro c inside
      refine .inl ?_
      simp only [List.mem_append, List.mem_singleton] at inside
      rcases inside with rfl | inside | rfl
      · decide
      · exact Operator.not_isWord_symbol known c inside
      · decide
    have split : textOf (a.testPieces Sign.source) =
        ([' '] ++ (operator.symbol ++ [' '])) ++ operand.text := by
      rw [textOf_test test, Operand.textOf_pieces]
      simp only [List.append_assoc]
    obtain ⟨last, same⟩ := editFrom_percentEdit_operand named wellFormed
      (([' '] ++ (operator.symbol ++ [' '])).getLast?.or middle) stops
    refine ⟨last, ?_⟩
    rw [split, List.append_assoc, editFrom_percentEdit_marks named marks, same]
    simp only [List.append_assoc]

theorem percentEdit_truth (field : Reference) {operator : Operator} (known : operator.Known)
    (value : Bool) (before : Option Char) (rest : Text) :
    percentEdit field.text before (field.text ++
      (' ' :: (operator.symbol ++ (' ' :: ((Operand.truth value).text ++ rest))))) = none := by
  have letters : ∀ c ∈ ['T', 'F'], isBlank c = false ∧ continuesNumber c = false := by decide
  have initial : ∃ c more, (Operand.truth value).text = c :: more ∧ c ∈ ['T', 'F'] := by
    cases value
    · exact ⟨'F', _, rfl, by decide⟩
    · exact ⟨'T', _, rfl, by decide⟩
  obtain ⟨c, more, word, inside⟩ := initial
  obtain ⟨visible, no_number⟩ := letters c inside
  have read : Operator.read (operator.symbol ++ (' ' :: (c :: more ++ rest))) =
      some (operator, ' ' :: (c :: more ++ rest)) :=
    Operator.read_append known (Text.stops_cons.2 (by decide))
  refine percentEdit_eq_none fun operator' after found => ?_
  rw [word, trimStart_space (Operator.stops_symbol known (by decide) _), read] at found
  cases found
  rw [List.cons_append, trimStart_space (Text.stops_cons.2 visible)]
  exact readThreshold_eq_none (Text.stops_cons.2 no_number)

theorem percentEdit_atom (named : field.IsNamed) (names : ∀ root ∈ roots, IsName root) {a : Atom}
    (h : a.IsAuthorable roots) {before : Option Char} {rest : Text} (closes : Closes rest)
    (no_number : a.reference.text = field.text →
      ∀ operator n, a.test ≠ some (operator, .number n)) :
    percentEdit field.text before
      (a.reference.text ++ (textOf (a.testPieces Sign.source) ++ rest)) = none := by
  by_cases same : a.reference.text = field.text
  · rw [same]
    cases test : a.test with
    | none =>
      have alone : textOf (a.testPieces Sign.source) = [] := by simp [Atom.testPieces, test]
      refine percentEdit_eq_none fun operator after found => ?_
      rw [alone, List.nil_append, Closes.read_eq_none closes] at found
      cases found
    | some pair =>
      obtain ⟨operator, operand⟩ := pair
      cases operand with
      | number n => exact absurd test (no_number same _ n)
      | truth value =>
        have none := percentEdit_truth field (h.test _ _ test).1 value before rest
        rw [textOf_test test, Operand.textOf_pieces]
        simpa using none
  · exact percentEdit_reference named (h.reference.isNamed names).wellFormed same before
      (a.stops_test Sign.source (by decide) (closes.stops (by decide) (by decide)))

theorem editFrom_percentEdit_threshold {a : Atom} (h : a.IsAuthorable roots)
    (names : ∀ root ∈ roots, IsName root) (avoids : a.AvoidsFraction field.text)
    (same : a.reference.text = field.text) {operator : Operator} {n : Numeral}
    (test : a.test = some (operator, .number n)) {before : Option Char}
    (fresh : blocksField before = false) {rest : Text} (stops : Stops continuesNumber rest) :
    ∃ last, editFrom (percentEdit field.text) before 0 (textOf (a.bare Sign.source) ++ rest) =
      textOf (a.bare Sign.source) ++ editFrom (percentEdit field.text) last 0 rest := by
  obtain ⟨known, wellFormed⟩ := h.test operator (.number n) test
  let w : WrittenComparison := ⟨a.reference, [' '], operator, [' '], n⟩
  have wf : w.WellFormed :=
    ⟨(h.reference.isNamed names).wellFormed, Text.blank_space, known, Text.blank_space, wellFormed⟩
  have text : textOf (a.bare Sign.source) = w.text := by
    rw [Atom.textOf_bare, textOf_test test, Operand.textOf_pieces]
    rfl
  have shown : Percent.shown n.text = n.text := by
    rcases avoids same operator n test with whole | above
    · refine Percent.shown_of_no_point fun point => ?_
      rw [Numeral.text, whole] at point
      exact absurd (wellFormed.whole.2 '.' point) (by decide)
    · exact Percent.shown_of_one_lt wellFormed above
  have kept : (w.rescaled field.text).text = w.text := by
    have number : n.rescaled.text = n.text := (Numeral.text_rescaled wellFormed).trans shown
    rw [WrittenComparison.rescaled, if_pos same, WrittenComparison.text, number]
    rfl
  rw [text]
  have edited := editFrom_percentEdit_field wf same fresh stops
  rwa [kept] at edited

theorem editFrom_percentEdit_sign (named : field.IsNamed) {s : Sign}
    (inside : s ∈ [Sign.not, .and, .or]) (before : Option Char) (rest : Text) :
    editFrom (percentEdit field.text) before 0 (textOf s.source ++ rest) =
      textOf s.source ++ editFrom (percentEdit field.text) (some ' ') 0 rest := by
  have mark : ∀ c ∈ [' '], isWord c = false ∨ Text.isDigit c = true := by decide
  have words : ∀ w ∈ ["not".toList, "and".toList, "or".toList],
      IsRun isWord w ∧ w ∈ reservedWords := by
    unfold IsRun
    decide
  have spaced : ∀ w ∈ ["not".toList, "and".toList, "or".toList], ∀ before,
      editFrom (percentEdit field.text) before 0 (w ++ ([' '] ++ rest)) =
        w ++ ([' '] ++ editFrom (percentEdit field.text) (some ' ') 0 rest) := by
    intro w member before
    have stops : Stops continuesReference ([' '] ++ rest) := Text.stops_cons.2 (by decide)
    rw [editFrom_percentEdit_keyword named (words w member).1 (words w member).2 before stops,
      editFrom_percentEdit_marks named mark]
    rfl
  simp only [List.mem_cons, List.not_mem_nil, or_false] at inside
  rcases inside with rfl | rfl | rfl
  · exact spaced "not".toList (by decide) before
  · have first := editFrom_percentEdit_marks named mark before ("and".toList ++ ([' '] ++ rest))
    rw [spaced "and".toList (by decide)] at first
    exact first
  · have first := editFrom_percentEdit_marks named mark before ("or".toList ++ ([' '] ++ rest))
    rw [spaced "or".toList (by decide)] at first
    exact first

/-- A phrase without fractions of the field is left as it is. -/
theorem restyles_percentEdit (named : field.IsNamed) (names : ∀ root ∈ roots, IsName root) :
    Restyles (passOver (percentEdit field.text)) (blocksField · = false)
      (fun a => a.IsAuthorable roots ∧ a.AvoidsFraction field.text) Sign.source Sign.source where
  nil _ := rfl
  atom {a} h before others fresh closes := by
    have hit : ∃ last, editFrom (percentEdit field.text) before 0
        (textOf (a.bare Sign.source) ++ textOf others) = textOf (a.bare Sign.source) ++
          editFrom (percentEdit field.text) last 0 (textOf others) := by
      by_cases number : a.reference.text = field.text ∧
          ∃ operator n, a.test = some (operator, .number n)
      · obtain ⟨same, operator, n, test⟩ := number
        exact editFrom_percentEdit_threshold h.1 names h.2 same test fresh
          (closes.stops (by decide) (by decide))
      · refine editFrom_percentEdit_atom named h.1 names (closes.stops (by decide) (by decide))
          (percentEdit_atom named names h.1 closes fun same operator n test => ?_)
        exact number ⟨same, operator, n, test⟩
    obtain ⟨last, same⟩ := hit
    refine ⟨last, ?_⟩
    rw [passOver, Text.textOf_append, Text.textOf_append]
    exact same
  leftParen before others _ := by
    have mark : ∀ c ∈ ['('], isWord c = false ∨ Text.isDigit c = true := by decide
    exact ⟨some '(', rfl, editFrom_percentEdit_marks named mark _ _⟩
  rightParen before others _ := by
    have mark : ∀ c ∈ [')'], isWord c = false ∨ Text.isDigit c = true := by decide
    exact ⟨_, editFrom_percentEdit_marks named mark _ _⟩
  sign s inside before others _ := by
    refine ⟨some ' ', by decide, ?_⟩
    rw [passOver, Text.textOf_append]
    exact editFrom_percentEdit_sign named inside before _

end Restoration

open Restoration in
theorem restore_phrase {roots : List Text} (names : ∀ root ∈ roots, IsName root)
    {field : Reference} (named : field.IsNamed) {p : Phrase}
    (all : ∀ a ∈ p.atoms, a.IsAuthorable roots ∧ a.AvoidsFraction field.text) :
    restore field.text (textOf (p.pieces Sign.rule)) = p.text := by
  have authorable : ∀ a ∈ p.atoms, a.IsAuthorable roots := fun a member => (all a member).1
  have runs : ∀ a ∈ p.atoms, IsRun isWord a.reference.root :=
    fun a member => (names _ (authorable a member).reference.root).run
  have truth : ∀ value restored, restored (.truth value) = false →
      Text.replaceWord (truthWord value) (textOf (Sign.source (.truth value)))
          (textOf (p.pieces (Sign.mixed restored))) =
        textOf (p.pieces (Sign.mixed (Sign.restore (.truth value) restored))) := by
    intro value restored rules
    have word : IsRun isWord (truthWord value) := by cases value <;> exact ⟨by decide, by decide⟩
    have separated : Separated (p.pieces (Sign.mixed restored) ++ []) :=
      Phrase.separated restored names authorable trivial (.inl rfl)
    rw [List.append_nil] at separated
    rw [Text.replaceWord_textOf word _ separated]
    exact (restyles_restoreTruth names rules).whole runs authorable trivial
  let marks : Sign → Bool := Sign.restore .mark fun _ => false
  let truths : Sign → Bool := Sign.restore (.truth false) (Sign.restore (.truth true) marks)
  let joints : Sign → Bool := Sign.restore .or (Sign.restore .and truths)
  have source : Sign.mixed (Sign.restore .not joints) = Sign.source := by
    funext s
    cases s with
    | truth value => cases value <;> rfl
    | mark | not | and | or => rfl
  have marked : Restyles (passOver dropMark) _ _ (Sign.mixed fun _ => false) (Sign.mixed marks) :=
    restyles_dropMark names rfl
  have two_ampersands : "&&".toList = ['&', '&'] := rfl
  have conjunctions : Restyles (passOver (operatorWord "&&" " and ")) _ _ (Sign.mixed truths)
      (Sign.mixed (Sign.restore .and truths)) :=
    restyles_operatorWord names two_ampersands (by decide) (by decide) rfl rfl rfl rfl (by decide)
  have two_bars : "||".toList = ['|', '|'] := rfl
  have disjunctions : Restyles (passOver (operatorWord "||" " or ")) _ _
      (Sign.mixed (Sign.restore .and truths)) (Sign.mixed joints) :=
    restyles_operatorWord names two_bars (by decide) (by decide) rfl rfl rfl rfl (by decide)
  have negations : Restyles (passOver negationWord) _ _ (Sign.mixed joints)
      (Sign.mixed (Sign.restore .not joints)) := restyles_negationWord names rfl rfl
  have percentages : Restyles (passOver (percentEdit field.text)) _ _ (Sign.mixed fun _ => true)
      Sign.source := restyles_percentEdit named names
  have visible : Text.blankOnly (textOf (p.pieces Sign.rule)) = false := by
    have begins : Begins (textOf (p.pieces Sign.rule ++ [])) := p.begins (fun _ => false) runs []
    rw [List.append_nil] at begins
    exact begins.not_blankOnly
  rw [restore, visible, if_neg Bool.false_ne_true]
  calc rescaleProgress field.text _
    _ = rescaleProgress field.text (textOf (p.pieces (Sign.mixed (Sign.restore .not joints)))) := by
      have step₁ : Text.editAll dropMark (textOf (p.pieces Sign.rule)) = _ :=
        marked.whole runs authorable trivial
      have step₂ : Text.replaceWord "true".toList "True".toList _ = _ := truth true marks rfl
      have step₃ : Text.replaceWord "false".toList "False".toList _ = _ :=
        truth false (Sign.restore (.truth true) marks) rfl
      have step₄ : Text.editAll (operatorWord "&&" " and ") (textOf (p.pieces _)) =
        _ := conjunctions.whole runs authorable trivial
      have step₅ : Text.editAll (operatorWord "||" " or ") (textOf (p.pieces _)) = _ :=
        disjunctions.whole runs authorable trivial
      have step₆ : Text.editAll negationWord (textOf (p.pieces (Sign.mixed joints))) = _ :=
        negations.whole runs authorable trivial
      rw [step₁, step₂, step₃, step₄, step₅, step₆]
    _ = rescaleProgress field.text (textOf (p.pieces Sign.source)) := by rw [source]
    _ = textOf (p.pieces Sign.source) := percentages.whole runs all rfl
    _ = p.text := p.textOf_pieces

/-- What an author has typed comes back when its rule is opened, character for character. -/
theorem restore_normalize_phrase {vars : List Variable} {field : Reference}
    (names : ∀ root ∈ rootsOf vars, IsName root) (named : field.IsNamed) {p : Phrase}
    (all : ∀ a ∈ p.atoms, a.IsAuthorable (rootsOf vars) ∧ a.AvoidsFraction field.text) :
    ∃ rule, normalize vars p.text = .ok rule ∧ restore field.text rule = p.text :=
  ⟨_, normalize_phrase names fun a member => (all a member).1, restore_phrase names named all⟩

namespace Sample

def phrase : Phrase :=
  .and
    (.not (.not (.group (.or
      (.atom ⟨⟨"progressField".toList, [.member "count".toList]⟩,
        some (.ne, .number ⟨['3'], []⟩)⟩)
      (.atom ⟨⟨"progressField".toList, [.key "done".toList]⟩, some (.eq, .truth true)⟩)))))
    (.atom ⟨⟨"progressField".toList, []⟩, some (.ge, .number ⟨['2'], ['5']⟩)⟩)

theorem phrase_authorable : ∀ a ∈ phrase.atoms, a.IsAuthorable (rootsOf Catalog.default.toList) ∧
    a.AvoidsFraction "progressField".toList := by
  have root : "progressField".toList ∈ rootsOf Catalog.default.toList := by decide
  have free : IsFree "count".toList ∧ IsFree "done".toList := by
    constructor <;> exact ⟨⟨by decide, by decide⟩, by decide⟩
  have three : Numeral.WellFormed ⟨['3'], []⟩ := ⟨⟨by decide, by decide⟩, by decide⟩
  have more : Numeral.WellFormed ⟨['2'], ['5']⟩ := ⟨⟨by decide, by decide⟩, by decide⟩
  intro a member
  simp only [phrase, Phrase.atoms, List.cons_append, List.nil_append, List.mem_cons,
    List.not_mem_nil, or_false] at member
  rcases member with rfl | rfl | rfl
  · refine ⟨⟨⟨root, List.forall_mem_singleton.2 free.1⟩, ?_⟩, fun same => absurd same (by decide)⟩
    rintro operator operand ⟨⟩
    exact ⟨fun _ => Operator.noConfusion, three⟩
  · refine ⟨⟨⟨root, List.forall_mem_singleton.2 free.2⟩, ?_⟩, fun same => absurd same (by decide)⟩
    rintro operator operand ⟨⟩
    exact ⟨fun _ => Operator.noConfusion, trivial⟩
  · refine ⟨⟨⟨root, by simp⟩, ?_⟩, ?_⟩
    · rintro operator operand ⟨⟩
      exact ⟨fun _ => Operator.noConfusion, more⟩
    · rintro - operator n ⟨⟩
      exact .inr (by decide)

end Sample

open Sample in
theorem restore_normalize_typed :
    ∃ rule, normalize Catalog.default.toList
        ("not not (progressField.count != 3 or progressField['done'] == True)" ++
          " and progressField >= 2.5").toList = .ok rule ∧
      restore "progressField".toList rule =
        ("not not (progressField.count != 3 or progressField['done'] == True)" ++
          " and progressField >= 2.5").toList := by
  have name : IsName "progressField".toList :=
    ⟨⟨⟨by decide, by decide⟩, by decide⟩, 'p', "rogressField".toList, rfl, by decide⟩
  have roots : rootsOf Catalog.default.toList = ["progressField".toList] := by decide
  have names : ∀ root ∈ rootsOf Catalog.default.toList, IsName root := by
    rw [roots]
    exact List.forall_mem_singleton.2 name
  have named : Reference.IsNamed ⟨"progressField".toList, []⟩ := ⟨name, by simp⟩
  exact restore_normalize_phrase names named phrase_authorable

end ProgressRules

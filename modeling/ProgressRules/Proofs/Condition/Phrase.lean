import ProgressRules.Proofs.Condition.Authoring

/-! Phrases of the authoring language: conditions as an author types them, with every pair of
parentheses and every negation, and with single blanks. A phrase is written with signs, and a
pass over its text that writes other signs is known from what it does to single signs. -/

namespace ProgressRules

open Text (IsRun Stops Piece isWord isBlank textOf Separated)

inductive Operand where
  | number (n : Numeral)
  | truth (value : Bool)
deriving DecidableEq, Repr

/-- A reference that is compared, or one that stands for itself. -/
structure Atom where
  reference : Reference
  test : Option (Operator × Operand)
deriving DecidableEq, Repr

inductive Phrase where
  | atom (a : Atom)
  | group (p : Phrase)
  | not (p : Phrase)
  | and (p q : Phrase)
  | or (p q : Phrase)
deriving DecidableEq, Repr

namespace Operand

def text : Operand → Text
  | .number n => n.text
  | .truth value => if value then "True".toList else "False".toList

def WellFormed : Operand → Prop
  | .number n => n.WellFormed
  | .truth _ => True

end Operand

namespace Atom

def text (a : Atom) : Text :=
  a.reference.text ++
    match a.test with
    | some (operator, operand) => " ".toList ++ operator.symbol ++ " ".toList ++ operand.text
    | none => []

/-- The root is one of the given names, and what it is compared with can be read. -/
structure IsAuthorable (roots : List Text) (a : Atom) : Prop where
  reference : a.reference.IsPlain roots
  test : ∀ operator operand, a.test = some (operator, operand) →
    operator.Known ∧ operand.WellFormed

/-- A threshold of the progress field is no fraction: it has no point, or it is above one. -/
def AvoidsFraction (progressField : Text) (a : Atom) : Prop :=
  a.reference.text = progressField → ∀ operator n, a.test = some (operator, .number n) →
    n.fraction = [] ∨ n.denominator < n.numerator

end Atom

namespace Phrase

def text : Phrase → Text
  | .atom a => a.text
  | .group p => "(".toList ++ p.text ++ ")".toList
  | .not p => "not ".toList ++ p.text
  | .and p q => p.text ++ " and ".toList ++ q.text
  | .or p q => p.text ++ " or ".toList ++ q.text

def atoms : Phrase → List Atom
  | .atom a => [a]
  | .group p => p.atoms
  | .not p => p.atoms
  | .and p q => p.atoms ++ q.atoms
  | .or p q => p.atoms ++ q.atoms

end Phrase

/-! ### Signs -/

inductive Sign where
  | mark
  | truth (value : Bool)
  | not
  | and
  | or
deriving DecidableEq, Repr

namespace Sign

def source : Sign → List Piece
  | .mark => []
  | .truth value => [.word (if value then "True".toList else "False".toList)]
  | .not => [.word "not".toList, .mark ' ']
  | .and => [.mark ' ', .word "and".toList, .mark ' ']
  | .or => [.mark ' ', .word "or".toList, .mark ' ']

def rule : Sign → List Piece
  | .mark => [.mark '#']
  | .truth value => [.word (if value then "true".toList else "false".toList)]
  | .not => [.mark '!']
  | .and => " && ".toList.map .mark
  | .or => " || ".toList.map .mark

/-- The signs of a text where some are restored already. -/
def mixed (restored : Sign → Bool) (s : Sign) : List Piece :=
  if restored s then s.source else s.rule

def restore (x : Sign) (restored : Sign → Bool) (s : Sign) : Bool := s == x || restored s

theorem mixed_restore_self (x : Sign) (restored : Sign → Bool) :
    mixed (restore x restored) x = x.source := by
  simp [mixed, restore]

theorem mixed_restore_of_ne {x s : Sign} (other : s ≠ x) (restored : Sign → Bool) :
    mixed (restore x restored) s = mixed restored s := by
  simp [mixed, restore, other]

end Sign

def Operand.pieces (form : Sign → List Piece) : Operand → List Piece
  | .number n => n.pieces
  | .truth value => form (.truth value)

namespace Atom

def testPieces (form : Sign → List Piece) (a : Atom) : List Piece :=
  match a.test with
  | some (operator, operand) =>
    (' ' :: (operator.symbol ++ [' '])).map .mark ++ operand.pieces form
  | none => []

def bare (form : Sign → List Piece) (a : Atom) : List Piece :=
  .word a.reference.root :: (a.reference.segments.flatMap Segment.pieces ++ a.testPieces form)

end Atom

def Phrase.pieces (form : Sign → List Piece) : Phrase → List Piece
  | .atom a => form .mark ++ a.bare form
  | .group p => .mark '(' :: (p.pieces form ++ [.mark ')'])
  | .not p => form .not ++ p.pieces form
  | .and p q => p.pieces form ++ (form .and ++ q.pieces form)
  | .or p q => p.pieces form ++ (form .or ++ q.pieces form)

theorem Operand.textOf_pieces (x : Operand) : textOf (x.pieces Sign.source) = x.text := by
  cases x with
  | number n => exact n.textOf_pieces
  | truth value => cases value <;> rfl

theorem Atom.textOf_bare (form : Sign → List Piece) (a : Atom) :
    textOf (a.bare form) = a.reference.text ++ textOf (a.testPieces form) := by
  simp [bare, Segment.textOf_flatMap_pieces, Reference.text]

theorem Phrase.textOf_pieces (p : Phrase) : textOf (p.pieces Sign.source) = p.text := by
  induction p with
  | atom a =>
    have test : textOf (a.testPieces Sign.source) =
        match a.test with
        | some (operator, operand) => " ".toList ++ operator.symbol ++ " ".toList ++ operand.text
        | none => [] := by
      unfold Atom.testPieces
      split
      · rw [Text.textOf_append, Text.textOf_marks, Operand.textOf_pieces]
        simp
      · rfl
    rw [pieces, Text.textOf_append, Atom.textOf_bare, test]
    rfl
  | group p ih => simp [pieces, text, ih]
  | not p ih => simp [pieces, text, ih, Sign.source]
  | and p q ihp ihq => simp [pieces, text, ihp, ihq, Sign.source]
  | or p q ihp ihq => simp [pieces, text, ihp, ihq, Sign.source]

/-! ### Where phrases begin and end -/

def Begins (text : Text) : Prop :=
  ∃ c rest, text = c :: rest ∧ (isWord c = true ∨ c ∈ ['#', '(', '!'])

def Closes (text : Text) : Prop :=
  text = [] ∨ (∃ rest, text = ')' :: rest) ∨
    ∃ c rest, text = ' ' :: c :: rest ∧ c ∈ ['a', 'o', '&', '|']

theorem Begins.stops {text : Text} (h : Begins text) {p : Char → Bool}
    (word : ∀ c, isWord c = true → p c = false) (marks : ∀ c ∈ ['#', '(', '!'], p c = false) :
    Stops p text := by
  obtain ⟨c, rest, rfl, cases⟩ := h
  exact Text.stops_cons.2 (cases.elim (word c) (marks c))

theorem Begins.visible {text : Text} (h : Begins text) : Stops isBlank text :=
  h.stops (fun _ => Text.not_isBlank_of_isWord) (by decide)

theorem Begins.not_blankOnly {text : Text} (h : Begins text) : Text.blankOnly text = false := by
  have visible := h.visible
  obtain ⟨c, rest, rfl, -⟩ := h
  simp [Text.blankOnly, Text.stops_cons.1 visible]

theorem Begins.other {text : Text} (h : Begins text) {s : Char} (mark : isWord s = false)
    (other : s ∉ ['#', '(', '!']) : Stops (· == s) text := by
  refine h.stops (fun c word => ?_) fun c inside => ?_ <;>
    simp only [beq_eq_false_iff_ne] <;> rintro rfl
  · rw [mark] at word
    cases word
  · exact other inside

theorem Closes.stops {text : Text} (h : Closes text) {p : Char → Bool}
    (blank : p ' ' = false) (paren : p ')' = false) : Stops p text := by
  rcases h with rfl | ⟨rest, rfl⟩ | ⟨c, rest, rfl, -⟩
  · exact Text.stops_nil _
  · exact Text.stops_cons.2 paren
  · exact Text.stops_cons.2 blank

theorem closes_rightParen (rest : Text) : Closes (')' :: rest) := .inr (.inl ⟨rest, rfl⟩)

section

variable {restored : Sign → Bool}

theorem begins_not (others : List Piece) :
    Begins (textOf (Sign.mixed restored .not ++ others)) := by
  unfold Sign.mixed
  split
  · exact ⟨'n', _, rfl, .inl (by decide)⟩
  · exact ⟨'!', _, rfl, .inr (by decide)⟩

theorem closes_and (others : List Piece) :
    Closes (textOf (Sign.mixed restored .and ++ others)) := by
  unfold Sign.mixed
  split
  · exact .inr (.inr ⟨'a', _, rfl, by decide⟩)
  · exact .inr (.inr ⟨'&', _, rfl, by decide⟩)

theorem closes_or (others : List Piece) :
    Closes (textOf (Sign.mixed restored .or ++ others)) := by
  unfold Sign.mixed
  split
  · exact .inr (.inr ⟨'o', _, rfl, by decide⟩)
  · exact .inr (.inr ⟨'|', _, rfl, by decide⟩)

theorem Phrase.begins (restored : Sign → Bool) (p : Phrase) (runs : ∀ a ∈ p.atoms, IsRun isWord a.reference.root)
    (others : List Piece) : Begins (textOf (p.pieces (Sign.mixed restored) ++ others)) := by
  induction p generalizing others with
  | atom a =>
    obtain ⟨c, root, same⟩ := List.exists_cons_of_ne_nil (runs a (by simp [atoms])).1
    have word : isWord c = true := (runs a (by simp [atoms])).2 c (by simp [same])
    rw [pieces, List.append_assoc]
    unfold Sign.mixed
    split
    · exact ⟨c, _, by simp [Sign.source, Atom.bare, same]; rfl, .inl word⟩
    · exact ⟨'#', _, rfl, .inr (by decide)⟩
  | group p ih => exact ⟨'(', _, rfl, .inr (by decide)⟩
  | not p ih =>
    rw [pieces, List.append_assoc]
    exact begins_not _
  | and p q ihp ihq =>
    rw [pieces, List.append_assoc]
    exact ihp (fun a member => runs a (List.mem_append_left _ member)) _
  | or p q ihp ihq =>
    rw [pieces, List.append_assoc]
    exact ihp (fun a member => runs a (List.mem_append_left _ member)) _

end

/-! ### Words are kept apart -/

theorem Operand.separated {restored : Sign → Bool} {x : Operand} (h : x.WellFormed) :
    Separated (x.pieces (Sign.mixed restored)) := by
  cases x with
  | number n => exact Numeral.separated_pieces h
  | truth value =>
    change Separated (Sign.mixed restored (.truth value))
    unfold Sign.mixed
    split <;> cases value <;> exact ⟨⟨by decide, by decide⟩, Text.stops_nil _, trivial⟩

theorem Atom.stops_test (form : Sign → List Piece) (a : Atom) {rest : Text} {p : Char → Bool}
    (blank : p ' ' = false) (stops : Stops p rest) :
    Stops p (textOf (a.testPieces form) ++ rest) := by
  unfold testPieces
  split
  · exact Text.stops_cons.2 blank
  · exact stops

theorem Atom.separated {restored : Sign → Bool} {roots : List Text} {a : Atom}
    (names : ∀ root ∈ roots, IsName root) (h : a.IsAuthorable roots) {others : List Piece}
    (separated : Separated others) (stops : Stops isWord (textOf others)) :
    Separated (a.bare (Sign.mixed restored) ++ others) := by
  have test : Separated (a.testPieces (Sign.mixed restored) ++ others) := by
    unfold testPieces
    split
    · rename_i operator operand same
      obtain ⟨known, wellFormed⟩ := h.test operator operand same
      rw [List.append_assoc]
      refine Text.separated_marks_append (fun c inside => ?_)
        ((Operand.separated wellFormed).append separated stops)
      simp only [List.mem_cons, List.mem_append, List.not_mem_nil, or_false] at inside
      rcases inside with rfl | inside | rfl
      · decide
      · exact Operator.not_isWord_symbol known c inside
      · decide
    · exact separated
  have stops' := a.stops_test (Sign.mixed restored) (by decide) stops
  rw [← Text.textOf_append] at stops'
  rw [bare, List.cons_append, List.append_assoc]
  exact ⟨(names _ h.reference.root).run, Segment.stops_pieces _ stops',
    Segment.separated_flatMap h.reference.segments test stops'⟩

theorem separated_sign {restored : Sign → Bool} {s : Sign}
    (inside : s ∈ [Sign.mark, .not, .and, .or]) {others : List Piece}
    (separated : Separated others) : Separated (Sign.mixed restored s ++ others) := by
  have run : ∀ w ∈ ["not".toList, "and".toList, "or".toList], IsRun isWord w := by
    unfold IsRun
    decide
  have word : ∀ w ∈ ["not".toList, "and".toList, "or".toList],
      Separated (.word w :: .mark ' ' :: others) := fun w inside =>
    ⟨run w inside, Text.stops_cons.2 (by decide), by decide, separated⟩
  have marks : ∀ text ∈ ["#".toList, "!".toList, " && ".toList, " || ".toList],
      Separated (text.map Piece.mark ++ others) := fun text inside =>
    Text.separated_marks_append
      ((by decide : ∀ text ∈ ["#".toList, "!".toList, " && ".toList, " || ".toList],
        ∀ c ∈ text, isWord c = false) text inside) separated
  simp only [List.mem_cons, List.not_mem_nil, or_false] at inside
  unfold Sign.mixed
  split <;> rcases inside with rfl | rfl | rfl | rfl
  · exact separated
  · exact word _ (by decide)
  · exact ⟨by decide, word _ (by decide)⟩
  · exact ⟨by decide, word _ (by decide)⟩
  · exact marks "#".toList (by decide)
  · exact marks "!".toList (by decide)
  · exact marks " && ".toList (by decide)
  · exact marks " || ".toList (by decide)

theorem Phrase.separated (restored : Sign → Bool) {roots : List Text} {p : Phrase}
    (names : ∀ root ∈ roots, IsName root) (all : ∀ a ∈ p.atoms, a.IsAuthorable roots)
    {others : List Piece} (separated : Separated others) (closes : Closes (textOf others)) :
    Separated (p.pieces (Sign.mixed restored) ++ others) := by
  induction p generalizing others with
  | atom a =>
    rw [pieces, List.append_assoc]
    exact separated_sign (by decide) (Atom.separated names (all a (by simp [atoms])) separated
      (closes.stops (by decide) (by decide)))
  | group p ih =>
    have closing : Closes (textOf (.mark ')' :: others)) := closes_rightParen _
    have separated' : Separated (.mark ')' :: others) := ⟨by decide, separated⟩
    have inner := ih all separated' closing
    rw [pieces, List.cons_append, List.append_assoc]
    exact ⟨by decide, inner⟩
  | not p ih =>
    rw [pieces, List.append_assoc]
    exact separated_sign (by decide) (ih all separated closes)
  | and p q ihp ihq =>
    obtain ⟨all_p, all_q⟩ := List.forall_mem_append.1 all
    rw [pieces, List.append_assoc, List.append_assoc]
    exact ihp all_p (separated_sign (by decide) (ihq all_q separated closes)) (closes_and _)
  | or p q ihp ihq =>
    obtain ⟨all_p, all_q⟩ := List.forall_mem_append.1 all
    rw [pieces, List.append_assoc, List.append_assoc]
    exact ihp all_p (separated_sign (by decide) (ihq all_q separated closes)) (closes_or _)

/-! ### Texts of atoms -/

theorem Atom.bare_congr {form form' : Sign → List Piece}
    (same : ∀ value, form (.truth value) = form' (.truth value)) (a : Atom) :
    a.bare form = a.bare form' := by
  have operands : ∀ x : Operand, x.pieces form = x.pieces form' := by
    intro x
    cases x with
    | number n => rfl
    | truth value => exact same value
  unfold bare testPieces
  simp only [operands]

section

variable {roots : List Text} {restored : Sign → Bool}

theorem text_of_truth (value : Bool) :
    textOf (Sign.mixed restored (.truth value)) ∈
      ["True".toList, "False".toList, "true".toList, "false".toList] := by
  unfold Sign.mixed
  split <;> cases value <;> decide

theorem textOf_test {a : Atom} {form : Sign → List Piece} {operator : Operator} {x : Operand}
    (same : a.test = some (operator, x)) :
    textOf (a.testPieces form) = [' '] ++ (operator.symbol ++ ([' '] ++ textOf (x.pieces form))) := by
  simp [Atom.testPieces, same]

theorem not_mem_operand {x : Operand} (h : x.WellFormed) {c : Char}
    (hc : c ∈ '!' :: WrittenComparison.foreign) :
    c ∉ textOf (x.pieces (Sign.mixed restored)) := by
  cases x with
  | number n =>
    intro inside
    have kinds : ∀ c ∈ '!' :: WrittenComparison.foreign, continuesNumber c = false := by decide
    have number := Numeral.continuesNumber_of_mem h (n.textOf_pieces ▸ inside)
    rw [kinds c hc] at number
    cases number
  | truth value =>
    have kinds : ∀ c ∈ '!' :: WrittenComparison.foreign,
        ∀ w ∈ ["True".toList, "False".toList, "true".toList, "false".toList], c ∉ w := by decide
    exact kinds c hc _ (text_of_truth value)

theorem not_mem_bare (names : ∀ root ∈ roots, IsName root) {a : Atom} (h : a.IsAuthorable roots)
    {c : Char} (hc : c ∈ WrittenComparison.foreign) :
    c ∉ textOf (a.bare (Sign.mixed restored)) := by
  have outside := h.reference.not_mem_text names (List.mem_cons_of_mem '!' hc)
  rw [Atom.textOf_bare, List.mem_append, not_or]
  refine ⟨outside, ?_⟩
  cases test : a.test with
  | none => simp [Atom.testPieces, test]
  | some pair =>
    obtain ⟨operator, operand⟩ := pair
    obtain ⟨known, wellFormed⟩ := h.test operator operand test
    have kinds : ∀ c ∈ WrittenComparison.foreign, c ∉ [' '] ∧ c ∉ ['>', '<', '=', '!'] := by
      decide
    obtain ⟨visible, symbols⟩ := kinds c hc
    simp only [textOf_test test, List.mem_append, not_or]
    exact ⟨visible, fun inside => symbols (Operator.mem_of_mem_symbol known c inside), visible,
      not_mem_operand wellFormed (List.mem_cons_of_mem '!' hc)⟩

theorem visible_reference {r : Reference} (h : r.IsNamed) :
    ∃ c, r.text.getLast? = some c ∧ isBlank c = false := by
  rcases List.eq_nil_or_concat r.segments with none | ⟨segments, s, more⟩
  · obtain ⟨c, last, word⟩ := h.root.run.getLast
    refine ⟨c, ?_, Text.not_isBlank_of_isWord word⟩
    simpa [Reference.text, none] using last
  · have free := h.segments s (by simp [more])
    obtain ⟨c, last, word⟩ := free.run.getLast
    cases s with
    | member name =>
      refine ⟨c, ?_, Text.not_isBlank_of_isWord word⟩
      have last' : name.getLast? = some c := last
      simp [Reference.text, more, Segment.text, List.getLast?_append, List.getLast?_cons, last']
    | key name =>
      refine ⟨']', ?_, by decide⟩
      simp [Reference.text, more, Segment.text, List.getLast?_append, List.getLast?_cons]

theorem visible_operand (restored : Sign → Bool) {x : Operand} (h : x.WellFormed) :
    ∃ c, (textOf (x.pieces (Sign.mixed restored))).getLast? = some c ∧ isBlank c = false := by
  cases x with
  | number n =>
    obtain ⟨c, last, digit⟩ := Numeral.getLast_text h
    exact ⟨c, n.textOf_pieces ▸ last, Text.not_isBlank_of_isDigit digit⟩
  | truth value =>
    have words : ∀ w ∈ ["True".toList, "False".toList, "true".toList, "false".toList],
        w.getLast? = some 'e' := by decide
    exact ⟨'e', words _ (text_of_truth value), by decide⟩

theorem visible_bare (names : ∀ root ∈ roots, IsName root) {a : Atom} (h : a.IsAuthorable roots) :
    ∃ c, (textOf (a.bare (Sign.mixed restored))).getLast? = some c ∧ isBlank c = false := by
  rw [Atom.textOf_bare]
  cases test : a.test with
  | none =>
    have alone : textOf (a.testPieces (Sign.mixed restored)) = [] := by
      simp [Atom.testPieces, test]
    rw [alone, List.append_nil]
    exact visible_reference (h.reference.isNamed names)
  | some pair =>
    obtain ⟨operator, operand⟩ := pair
    obtain ⟨c, last, visible⟩ := visible_operand restored (h.test _ _ test).2
    refine ⟨c, ?_, visible⟩
    simp only [textOf_test test, List.getLast?_append, last, Option.some_or]

end

/-! ### Passes -/

/-- What a pass writes for the parts of phrases. A part is followed by `others`, and `fresh` is
said of the character before a phrase. -/
structure Restyles (pass : Option Char → List Piece → Text) (fresh : Option Char → Prop)
    (valid : Atom → Prop) (form form' : Sign → List Piece) : Prop where
  nil : ∀ before, pass before [] = []
  atom : ∀ {a}, valid a → ∀ {before others}, fresh before → Closes (textOf others) →
    ∃ last, pass before (form .mark ++ (a.bare form ++ others)) =
      textOf (form' .mark ++ a.bare form') ++ pass last others
  leftParen : ∀ before {others}, Begins (textOf others) →
    ∃ last, fresh last ∧ pass before (.mark '(' :: others) = '(' :: pass last others
  rightParen : ∀ before {others}, Closes (textOf others) →
    ∃ last, pass before (.mark ')' :: others) = ')' :: pass last others
  sign : ∀ s ∈ [Sign.not, .and, .or], ∀ before {others}, Begins (textOf others) →
    ∃ last, fresh last ∧
      pass before (form s ++ others) = textOf (form' s) ++ pass last others

namespace Restyles

variable {pass : Option Char → List Piece → Text} {fresh : Option Char → Prop}
  {valid : Atom → Prop} {restored : Sign → Bool} {form' : Sign → List Piece}

theorem joint (h : Restyles pass fresh valid (Sign.mixed restored) form') {s : Sign}
    (inside : s ∈ [Sign.not, .and, .or]) {p q : List Piece} {p' q' : Text} {before : Option Char}
    {others : List Piece} (begins : Begins (textOf (q ++ others)))
    (first : ∃ last, pass before (p ++ (Sign.mixed restored s ++ (q ++ others))) =
      p' ++ pass last (Sign.mixed restored s ++ (q ++ others)))
    (second : ∀ before, fresh before → ∃ last, pass before (q ++ others) =
      q' ++ pass last others) :
    ∃ last, pass before (p ++ (Sign.mixed restored s ++ q) ++ others) =
      p' ++ (textOf (form' s) ++ q') ++ pass last others := by
  obtain ⟨middle, hp⟩ := first
  obtain ⟨start, free, hs⟩ := h.sign s inside middle begins
  obtain ⟨last, hq⟩ := second start free
  refine ⟨last, ?_⟩
  simp only [List.append_assoc]
  rw [hp, hs, hq]

/-- A pass over a phrase writes the other signs and nothing else. -/
theorem phrase (h : Restyles pass fresh valid (Sign.mixed restored) form') {p : Phrase}
    (runs : ∀ a ∈ p.atoms, IsRun isWord a.reference.root) (all : ∀ a ∈ p.atoms, valid a)
    {before : Option Char} {others : List Piece} (free : fresh before)
    (closes : Closes (textOf others)) :
    ∃ last, pass before (p.pieces (Sign.mixed restored) ++ others) =
      textOf (p.pieces form') ++ pass last others := by
  induction p generalizing before others with
  | atom a =>
    rw [Phrase.pieces, List.append_assoc]
    exact h.atom (all a (by simp [Phrase.atoms])) free closes
  | group p ih =>
    have closing : Closes (textOf (.mark ')' :: others)) := closes_rightParen _
    obtain ⟨start, free', opening⟩ := h.leftParen before
      (p.begins restored runs (.mark ')' :: others))
    obtain ⟨middle, inner⟩ := ih runs all free' closing
    obtain ⟨last, close⟩ := h.rightParen middle closes
    refine ⟨last, ?_⟩
    simp only [Phrase.pieces, List.cons_append, List.append_assoc, List.nil_append,
      Text.textOf_mark, Text.textOf_append, Text.textOf_nil]
    rw [opening, inner, close]
  | not p ih =>
    obtain ⟨start, free', negation⟩ := h.sign .not (by decide) before
      (p.begins restored runs others)
    obtain ⟨last, operand⟩ := ih runs all free' closes
    refine ⟨last, ?_⟩
    simp only [Phrase.pieces, List.append_assoc, Text.textOf_append]
    rw [negation, operand]
  | and p q ihp ihq =>
    obtain ⟨runs_p, runs_q⟩ := List.forall_mem_append.1 runs
    obtain ⟨all_p, all_q⟩ := List.forall_mem_append.1 all
    rw [Phrase.pieces, Phrase.pieces, Text.textOf_append, Text.textOf_append]
    exact h.joint (by decide) (q.begins restored runs_q others) (ihp runs_p all_p free (closes_and _))
      fun before free => ihq runs_q all_q free closes
  | or p q ihp ihq =>
    obtain ⟨runs_p, runs_q⟩ := List.forall_mem_append.1 runs
    obtain ⟨all_p, all_q⟩ := List.forall_mem_append.1 all
    rw [Phrase.pieces, Phrase.pieces, Text.textOf_append, Text.textOf_append]
    exact h.joint (by decide) (q.begins restored runs_q others) (ihp runs_p all_p free (closes_or _))
      fun before free => ihq runs_q all_q free closes

theorem whole (h : Restyles pass fresh valid (Sign.mixed restored) form') {p : Phrase}
    (runs : ∀ a ∈ p.atoms, IsRun isWord a.reference.root) (all : ∀ a ∈ p.atoms, valid a)
    (free : fresh none) : pass none (p.pieces (Sign.mixed restored)) = textOf (p.pieces form') := by
  obtain ⟨last, same⟩ := h.phrase runs all free (.inl Text.textOf_nil)
  rw [h.nil last] at same
  simpa using same

end Restyles

end ProgressRules
